import SchemaModels.Proofs.Go.Layout

/-!
# Blank lines between others

A layout reduces each run of blank lines to one and drops those at its beginning and at its end. A
blank line ends every run of rows that share their columns, and it does so however many blank lines
there are (`alignColumns_append`). So the shapes that are left when the blank ones are reduced have
the same layout (`layout_reduced`).
-/

namespace SchemaModels.Go.Format

/-! ### Reducing runs of blanks -/

section Reduce

variable {α β : Type} (f : α → Option β) (blank : β)

/-- What is left where the elements without a value are blank: one blank for each run of them
between others. `started` says that something is left already, `pending` that a blank has to stand
in front of the next one. -/
def reduce : (started pending : Bool) → List α → List β
  | _, _, [] => []
  | started, pending, a :: as =>
    match f a with
    | none => reduce started started as
    | some b => (if pending then [blank] else []) ++ b :: reduce true false as

variable {f blank}

theorem reduce_none {a : α} (ha : f a = none) (started pending : Bool) (as : List α) :
    reduce f blank started pending (a :: as) = reduce f blank started started as := by
  rw [reduce, ha]

theorem reduce_some {a : α} {b : β} (ha : f a = some b) (started pending : Bool) (as : List α) :
    reduce f blank started pending (a :: as) =
      (if pending then [blank] else []) ++ b :: reduce f blank true false as := by
  rw [reduce, ha]

/-- Elements without blanks between them stay as they are. -/
theorem reduce_append {as : List α} {bs : List β} (has : as.map f = bs.map some) (hne : as ≠ [])
    (started pending : Bool) (rest : List α) : reduce f blank started pending (as ++ rest) =
      (if pending then [blank] else []) ++ (bs ++ reduce f blank true false rest) := by
  induction as generalizing bs started pending with
  | nil => exact absurd rfl hne
  | cons a as ih =>
      cases bs with
      | nil => cases has
      | cons b bs =>
          rw [List.map_cons, List.map_cons, List.cons.injEq] at has
          rw [List.cons_append, reduce_some has.1]
          cases as with
          | nil =>
              obtain rfl : bs = [] := by simpa using has.2.symm
              rfl
          | cons a' as =>
              rw [ih has.2 (List.cons_ne_nil a' as)]
              rfl

/-- Where a blank is pending, it comes first. -/
theorem reduce_pending (as : List α) : reduce f blank true true as = [] ∨
    ∃ bs, reduce f blank true true as = blank :: bs := by
  induction as with
  | nil => exact Or.inl rfl
  | cons a as ih =>
      cases ha : f a with
      | none =>
          rw [reduce_none ha]
          exact ih
      | some b =>
          rw [reduce_some ha]
          exact Or.inr ⟨_, rfl⟩

/-- A blank at the end is dropped. -/
theorem reduce_trailing {a : α} (ha : f a = none) (started pending : Bool) (as : List α) :
    reduce f blank started pending (as ++ [a]) = reduce f blank started pending as := by
  induction as generalizing started pending with
  | nil => exact reduce_none ha started pending []
  | cons a' as ih =>
      rw [List.cons_append]
      cases ha' : f a' with
      | none => rw [reduce_none ha', reduce_none ha', ih]
      | some b => rw [reduce_some ha', reduce_some ha', ih]

end Reduce

/-! ### Lines -/

/-- The lines that are put are those that are left of all lines. -/
theorem putLines_eq (started pending : Bool) (lines : List (Option Text)) :
    putLines started pending lines = (reduce id [] started pending lines).flatMap (· ++ ['\n']) := by
  induction lines generalizing started pending with
  | nil => rfl
  | cons line lines ih =>
      cases line with
      | none => exact ih started started
      | some t =>
          have hsome : id (some t) = some t := rfl
          rw [putLines, ih, reduce_some hsome]
          cases pending <;> simp

/-! ### Rows -/

theorem runWidths_append (seen : Nat) (ws ws' : List (Option Nat)) :
    runWidths seen (ws ++ none :: ws') =
      ((runWidths seen ws).1 ++ 0 :: (runWidths 0 ws').1, (runWidths seen ws).2) := by
  induction ws generalizing seen with
  | nil => rfl
  | cons w ws ih =>
      cases w with
      | none => simp [runWidths, ih]
      | some w => simp [runWidths, ih]

/-- An empty row parts the rows above it from those below it. -/
theorem alignColumns_append (n : Nat) (rows rows' : List Row) :
    alignColumns n (rows ++ [] :: rows') =
      alignColumns n rows ++ [] :: alignColumns n rows' := by
  induction n generalizing rows rows' with
  | zero => simp [alignColumns]
  | succ n ih =>
      have hwidths : ((rows ++ [] :: rows').map leadingWidth) =
          rows.map leadingWidth ++ none :: rows'.map leadingWidth := by simp [leadingWidth]
      have htails : (rows ++ [] :: rows').map List.tail =
          rows.map List.tail ++ [] :: rows'.map List.tail := by simp
      have hlengths : (runWidths 0 (rows.map leadingWidth)).1.length =
          (alignColumns n (rows.map List.tail)).length := by
        rw [length_runWidths, length_alignColumns, List.length_map, List.length_map]
      have hrows : rows.length = ((runWidths 0 (rows.map leadingWidth)).1.zip
          (alignColumns n (rows.map List.tail))).length := by
        rw [List.length_zip, ← hlengths, Nat.min_self, length_runWidths, List.length_map]
      rw [alignColumns, alignColumns, hwidths, htails, ih, runWidths_append]
      dsimp only
      rw [List.zip_append hlengths, List.zipWith_append hrows]
      rfl

/-! ### Layouts -/

/-- The value of a shape that is not blank: the shape itself. -/
def Shape.filled? : Shape → Option Shape
  | .blank => none
  | s => some s

theorem eq_blank_or_filled (shape : Shape) : shape = .blank ∨ shape.filled? = some shape := by
  cases shape with
  | blank => exact Or.inl rfl
  | _ => exact Or.inr rfl

theorem Shape.exists_text {shape : Shape} (h : shape.filled? = some shape) (aligned : Text) :
    ∃ t, shape.text aligned = some t := by
  cases shape with
  | blank => cases h
  | _ => exact ⟨_, rfl⟩

/-- The lines of some shapes, where the first cells of their rows are laid out. -/
def linesOf (n : Nat) (shapes : List Shape) : List (Option Text) :=
  List.zipWith (fun s aligned => s.text aligned) shapes (alignColumns n (shapes.map Shape.cells))

theorem linesOf_append (n : Nat) (shapes shapes' : List Shape) :
    linesOf n (shapes ++ .blank :: shapes') = linesOf n shapes ++ none :: linesOf n shapes' := by
  have hlength : shapes.length = (alignColumns n (shapes.map Shape.cells)).length := by
    rw [length_alignColumns, List.length_map]
  have hcells : (shapes ++ .blank :: shapes').map Shape.cells =
      shapes.map Shape.cells ++ [] :: shapes'.map Shape.cells := by simp [Shape.cells]
  unfold linesOf
  rw [hcells, alignColumns_append, List.zipWith_append hlength]
  rfl

/-- Shapes that are not blank have lines that are not. -/
theorem linesOf_filled (n : Nat) {shapes : List Shape} (h : .blank ∉ shapes) :
    ∃ ts : List Text, linesOf n shapes = ts.map some ∧ ts.length = shapes.length := by
  have hlength : (alignColumns n (shapes.map Shape.cells)).length = shapes.length := by
    rw [length_alignColumns, List.length_map]
  unfold linesOf
  generalize alignColumns n (shapes.map Shape.cells) = texts at hlength
  induction shapes generalizing texts with
  | nil => exact ⟨[], rfl, rfl⟩
  | cons shape shapes ih =>
      cases texts with
      | nil => cases hlength
      | cons aligned texts =>
          obtain ⟨ts, hts, hcount⟩ := ih (fun hmem => h (List.mem_cons_of_mem shape hmem)) texts
            (Nat.succ.inj hlength)
          have hsome : ∃ t, shape.text aligned = some t := by
            cases shape with
            | blank => exact absurd List.mem_cons_self h
            | verbatim t => exact ⟨t, rfl⟩
            | code indent t => exact ⟨_, rfl⟩
            | field indent cells => exact ⟨_, rfl⟩
          obtain ⟨t, ht⟩ := hsome
          refine ⟨t :: ts, ?_, by rw [List.length_cons, hcount, List.length_cons]⟩
          rw [List.zipWith_cons_cons, ht, hts]
          rfl

theorem map_filled? {shapes : List Shape} (h : .blank ∉ shapes) :
    shapes.map Shape.filled? = shapes.map some := by
  refine List.map_congr_left fun shape hshape => ?_
  obtain rfl | hfilled := eq_blank_or_filled shape
  · exact absurd hshape h
  · exact hfilled

theorem linesOf_reduced_append (n : Nat) (shapes shapes' : List Shape) :
    linesOf n (shapes ++ reduce Shape.filled? .blank true true shapes') =
      linesOf n shapes ++ linesOf n (reduce Shape.filled? .blank true true shapes') := by
  obtain hnil | ⟨rest, hrest⟩ : reduce Shape.filled? .blank true true shapes' = [] ∨
      ∃ rest, reduce Shape.filled? .blank true true shapes' = .blank :: rest :=
    reduce_pending shapes'
  · rw [hnil, List.append_nil]
    exact (List.append_nil _).symm
  · have hblank := linesOf_append n [] rest
    rw [List.nil_append] at hblank
    rw [hrest, linesOf_append, hblank]
    rfl

theorem linesOf_pending (n : Nat) (pending : Bool) (shapes : List Shape) :
    linesOf n ((if pending then [.blank] else []) ++ shapes) =
      (if pending then [none] else []) ++ linesOf n shapes := by
  cases pending with
  | true => exact linesOf_append n [] shapes
  | false => rfl

theorem reduce_lines_pending {started pending : Bool} (h : pending = true → started = true)
    (lines : List (Option Text)) :
    reduce id [] started false ((if pending then [none] else []) ++ lines) =
      reduce id ([] : Text) started pending lines := by
  cases pending with
  | true =>
      rw [h rfl]
      exact reduce_none rfl true false lines
  | false => rfl

/-- The same lines are left when the blank shapes are reduced first. -/
theorem reduce_linesOf (n : Nat) (shapes : List Shape) (started pending : Bool)
    (hpending : pending = true → started = true) :
    reduce id [] started false (linesOf n (reduce Shape.filled? .blank started pending shapes)) =
      reduce id [] started pending (linesOf n shapes) := by
  by_cases hblank : .blank ∈ shapes
  · obtain ⟨before, behind, rfl, hbefore⟩ := List.eq_append_cons_of_mem hblank
    rw [linesOf_append]
    by_cases hne : before = []
    · have ih := reduce_linesOf n behind started started fun h => h
      subst hne
      exact ih
    · -- The shapes up to the first blank one are laid out by themselves.
      have ih := reduce_linesOf n behind true true fun _ => rfl
      obtain ⟨ts, hts, hlength⟩ := linesOf_filled n hbefore
      have hlines : (linesOf n before).map id = ts.map some := by rw [List.map_id, hts]
      have hlinesNe : linesOf n before ≠ [] := by
        intro hnil
        rw [hts, List.map_eq_nil_iff] at hnil
        rw [hnil] at hlength
        exact hne (List.eq_nil_of_length_eq_zero hlength.symm)
      rw [reduce_append (map_filled? hbefore) hne, reduce_none rfl, linesOf_pending,
        linesOf_reduced_append, reduce_lines_pending hpending, reduce_append hlines hlinesNe, ih,
        reduce_append hlines hlinesNe, reduce_none rfl]
  · by_cases hne : shapes = []
    · subst hne
      rfl
    · have hreduced : reduce Shape.filled? .blank started pending (shapes ++ []) = _ :=
        reduce_append (map_filled? hblank) hne started pending []
      rw [List.append_nil] at hreduced
      rw [hreduced, linesOf_pending, reduce_lines_pending hpending]
      exact congrArg (fun ss => reduce id [] started pending (linesOf n ss)) (List.append_nil shapes)
termination_by shapes.length

theorem foldr_max_reduce (started pending : Bool) (shapes : List Shape) :
    ((reduce Shape.filled? .blank started pending shapes).map (·.cells.length)).foldr max 0 =
      (shapes.map (·.cells.length)).foldr max 0 := by
  induction shapes generalizing started pending with
  | nil => rfl
  | cons shape shapes ih =>
      obtain rfl | hfilled := eq_blank_or_filled shape
      · rw [reduce_none rfl, ih]
        exact (Nat.zero_max _).symm
      · rw [reduce_some hfilled, List.map_append, List.foldr_append, List.map_cons, List.foldr_cons,
          ih]
        cases pending <;> simp [Shape.cells]

theorem layout_eq (shapes : List Shape) : layout shapes =
    (reduce id [] false false
      (linesOf ((shapes.map (·.cells.length)).foldr max 0) shapes)).flatMap (· ++ ['\n']) := by
  have halign : align (shapes.map Shape.cells) =
      alignColumns ((shapes.map (·.cells.length)).foldr max 0) (shapes.map Shape.cells) := by
    rw [align, List.map_map]
    rfl
  rw [layout, putLines_eq, halign]
  rfl

/-- Shapes have the layout that they have when the blank ones are reduced, and a blank line at the
end of a text does not show. -/
theorem layout_reduced (shapes : List Shape) :
    layout (reduce Shape.filled? .blank false false shapes ++ [.blank]) = layout shapes := by
  have hmax : ((reduce Shape.filled? .blank false false shapes ++ [Shape.blank]).map
      (·.cells.length)).foldr max 0 = (shapes.map (·.cells.length)).foldr max 0 := by
    rw [List.map_append, List.foldr_append, ← foldr_max_reduce false false shapes]
    rfl
  have hlines (n : Nat) : linesOf n (reduce Shape.filled? .blank false false shapes ++ [.blank]) =
      linesOf n (reduce Shape.filled? .blank false false shapes) ++ [none] :=
    linesOf_append n _ []
  rw [layout_eq, layout_eq, hmax, hlines, reduce_trailing rfl, reduce_linesOf _ _ _ _ fun h => h]

end SchemaModels.Go.Format
