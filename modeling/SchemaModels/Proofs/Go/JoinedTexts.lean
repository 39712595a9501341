import SchemaModels.Proofs.Go.Reformatting

/-!
# Formatted texts one after another

Two formatted texts with a blank line between them are a formatted text again (`format_joined`).
The scanner begins the second one as it began the first, since no text ends inside of anything
(`eq_start_of_endText`); the blank line parts the columns of the one from those of the other,
whatever their number, and it is the only blank line there, since a formatted text neither begins
nor ends with one (`layout_append`).
-/

namespace SchemaModels.Go

namespace Format

/-! ### Columns that no row has -/

theorem alignColumns_of_nil {rows : List Row} (h : ∀ row ∈ rows, row = []) (n : Nat) :
    alignColumns n rows = rows.map fun _ => [] := by
  cases n with
  | zero => rfl
  | succ n =>
      refine List.ext_getElem (by rw [length_alignColumns, List.length_map]) fun i hi hi' => ?_
      have hlt : i < rows.length := by simpa using hi'
      have hrow : rows[i] = [] := h _ (List.getElem_mem hlt)
      simp [alignColumns, hrow, putCell]

theorem alignColumns_succ {n : Nat} {rows : List Row} (h : ∀ row ∈ rows, row.length ≤ n) :
    alignColumns (n + 1) rows = alignColumns n rows := by
  induction n generalizing rows with
  | zero =>
      have hnil : ∀ row ∈ rows, row = [] := fun row hrow =>
        List.eq_nil_of_length_eq_zero (Nat.le_zero.1 (h row hrow))
      rw [alignColumns_of_nil hnil, alignColumns_of_nil hnil]
  | succ n ih =>
      have htails : ∀ row ∈ rows.map List.tail, row.length ≤ n := by
        intro row hrow
        obtain ⟨row', hrow', rfl⟩ := List.mem_map.1 hrow
        have hlength := h row' hrow'
        rw [List.length_tail]
        omega
      rw [alignColumns, ih htails]
      rfl

/-- Rows are laid out alike in any number of columns that is large enough. -/
theorem alignColumns_of_le {n m : Nat} (hnm : n ≤ m) {rows : List Row}
    (h : ∀ row ∈ rows, row.length ≤ n) : alignColumns m rows = alignColumns n rows := by
  induction hnm with
  | refl => rfl
  | @step m hnm ih =>
      have hm : ∀ row ∈ rows, row.length ≤ m := fun row hrow => Nat.le_trans (h row hrow) hnm
      rw [alignColumns_succ hm, ih]

/-- The number of columns of some shapes. -/
def columnsOf (shapes : List Shape) : Nat := (shapes.map (·.cells.length)).foldr max 0

theorem length_cells_le {shapes : List Shape} {row : Row} (h : row ∈ shapes.map Shape.cells) :
    row.length ≤ columnsOf shapes := by
  have hlength := length_le_foldr_max h
  rw [List.map_map] at hlength
  exact hlength

theorem columnsOf_append (shapes shapes' : List Shape) :
    columnsOf (shapes ++ .blank :: shapes') = max (columnsOf shapes) (columnsOf shapes') := by
  induction shapes with
  | nil => rfl
  | cons shape shapes ih =>
      change max shape.cells.length (columnsOf (shapes ++ .blank :: shapes')) = _
      rw [ih, ← Nat.max_assoc]
      rfl

theorem linesOf_of_le {n : Nat} {shapes : List Shape} (h : columnsOf shapes ≤ n) :
    linesOf n shapes = linesOf (columnsOf shapes) shapes := by
  rw [linesOf, alignColumns_of_le h fun row => length_cells_le]
  rfl

/-! ### A blank line in between -/

section Reduce

variable {α β : Type} {f : α → Option β} {blank : β}

/-- Something is left unless all elements are blank. -/
theorem reduce_eq_nil_iff (started pending : Bool) (as : List α) :
    reduce f blank started pending as = [] ↔ as.any (fun a => (f a).isSome) = false := by
  induction as generalizing started pending with
  | nil => exact iff_of_true rfl rfl
  | cons a as ih =>
      cases ha : f a with
      | none => rw [reduce_none ha, ih, List.any_cons, ha, Option.isSome_none, Bool.false_or]
      | some b =>
          rw [reduce_some ha, List.any_cons, ha]
          simp

/-- Behind a blank element it only counts whether something was left before it. -/
theorem reduce_append_none {a : α} (ha : f a = none) (started pending : Bool) (as bs : List α) :
    reduce f blank started pending (as ++ a :: bs) = reduce f blank started pending as ++
      let started' := started || as.any fun a => (f a).isSome
      reduce f blank started' started' bs := by
  induction as generalizing started pending with
  | nil =>
      rw [List.nil_append, reduce_none ha]
      simp [reduce]
  | cons a' as ih =>
      rw [List.cons_append]
      cases ha' : f a' with
      | none => rw [reduce_none ha', reduce_none ha', ih, List.any_cons, ha']; rfl
      | some b =>
          rw [reduce_some ha', reduce_some ha', ih, List.any_cons, ha', List.append_assoc]
          simp

theorem reduce_behind {bs : List α} (h : bs.any (fun a => (f a).isSome) = true) :
    reduce f blank true true bs = blank :: reduce f blank false false bs := by
  induction bs with
  | nil => cases h
  | cons a bs ih =>
      rw [List.any_cons] at h
      cases ha : f a with
      | none =>
          rw [reduce_none ha, reduce_none ha, ih (by simpa [ha] using h)]
      | some b => rw [reduce_some ha, reduce_some ha]; rfl

/-- What is left on both sides of a blank element, if something is, has one blank in between. -/
theorem reduce_joined {a : α} (ha : f a = none) {as bs : List α}
    (has : reduce f blank false false as ≠ []) (hbs : reduce f blank false false bs ≠ []) :
    reduce f blank false false (as ++ a :: bs) =
      reduce f blank false false as ++ blank :: reduce f blank false false bs := by
  have hleft : as.any (fun a => (f a).isSome) = true := by
    rwa [ne_eq, reduce_eq_nil_iff, Bool.not_eq_false] at has
  have hright : bs.any (fun a => (f a).isSome) = true := by
    rwa [ne_eq, reduce_eq_nil_iff, Bool.not_eq_false] at hbs
  rw [reduce_append_none ha, hleft, ← reduce_behind hright]
  rfl

end Reduce

/-- The lines of some shapes, without the surplus blank ones. -/
theorem layout_eq_of_le {n : Nat} {shapes : List Shape} (h : columnsOf shapes ≤ n) :
    layout shapes = (reduce id [] false false (linesOf n shapes)).flatMap (· ++ ['\n']) := by
  rw [linesOf_of_le h]
  exact layout_eq shapes

theorem layout_append {shapes shapes' : List Shape} (h : layout shapes ≠ [])
    (h' : layout shapes' ≠ []) :
    layout (shapes ++ .blank :: shapes') = layout shapes ++ '\n' :: layout shapes' := by
  have hlines : reduce id ([] : Text) false false
      (linesOf (columnsOf (shapes ++ .blank :: shapes')) shapes) ≠ [] := by
    intro hnil
    rw [layout_eq_of_le (columnsOf_append shapes shapes' ▸ Nat.le_max_left _ _), hnil] at h
    exact h rfl
  have hlines' : reduce id ([] : Text) false false
      (linesOf (columnsOf (shapes ++ .blank :: shapes')) shapes') ≠ [] := by
    intro hnil
    rw [layout_eq_of_le (columnsOf_append shapes shapes' ▸ Nat.le_max_right _ _), hnil] at h'
    exact h' rfl
  have hleft : columnsOf shapes ≤ columnsOf (shapes ++ .blank :: shapes') :=
    columnsOf_append shapes shapes' ▸ Nat.le_max_left _ _
  have hright : columnsOf shapes' ≤ columnsOf (shapes ++ .blank :: shapes') :=
    columnsOf_append shapes shapes' ▸ Nat.le_max_right _ _
  rw [layout_eq_of_le (Nat.le_refl _), linesOf_append, reduce_joined rfl hlines hlines',
    List.flatMap_append, List.flatMap_cons, ← layout_eq_of_le hleft, ← layout_eq_of_le hright]
  rfl

/-! ### From one text to the next -/

theorem Runs.isSettled {s final : State} {ts : List Text} {shapes : List Shape}
    (h : Runs s ts shapes final) (hs : s.mode.IsSettled) : final.mode.IsSettled := by
  induction h with
  | nil s => exact hs
  | cons hleads _ _ ih => exact ih (hleads.isSettled hs)

/-- A text ends where the next one can begin. -/
theorem eq_start_of_endText {s : State} (hs : s.mode.IsSettled) (hend : endText s = .ok ()) :
    s = .start := by
  have hcode := mode_of_endText hs hend
  obtain ⟨mode, stack⟩ := s
  cases hcode
  cases stack with
  | nil => rfl
  | cons o os => cases hend

end Format

open Format

/-- Sources with a blank line between them are formatted one by one. -/
theorem format_joined {source source' text text' : Text} (h : format source = .ok text)
    (h' : format source' = .ok text') (hne : text ≠ []) (hne' : text' ≠ []) :
    format (source ++ '\n' :: '\n' :: source') = .ok (text ++ '\n' :: text') := by
  obtain ⟨shapes, final, hruns, hend, rfl⟩ := format_eq_ok_iff.1 h
  obtain ⟨shapes', final', hruns', hend', rfl⟩ := format_eq_ok_iff.1 h'
  obtain rfl := eq_start_of_endText (hruns.isSettled (Or.inl rfl)) hend
  have hlines : Text.splitOn '\n' (source ++ '\n' :: '\n' :: source') =
      Text.splitOn '\n' source ++ ([[]] ++ Text.splitOn '\n' source') := by
    rw [Text.splitOn_append]
    rfl
  have hall : Runs .start (Text.splitOn '\n' (source ++ '\n' :: '\n' :: source'))
      (shapes ++ ([.blank] ++ shapes')) final' := by
    rw [hlines]
    exact hruns.append ((runs_blank rfl).append hruns')
  exact format_eq_ok_iff.2 ⟨_, final', hall, hend', (layout_append hne hne').symm⟩

end SchemaModels.Go
