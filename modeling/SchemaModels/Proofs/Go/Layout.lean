import Mathlib.Data.List.Forall2
import SchemaModels.Go.Format
import SchemaModels.Proofs.Text.Parts

/-!
# The lines of a layout

Each row of cells becomes one line, with the cells in their order and blanks between them
(`spaced_align`). So a layout has a line for each shape (`isLaidOut_layout`), and lines that are not
blank can be split off again (`splitOn_putLines`).
-/

namespace SchemaModels.Go.Format

/-! ### Rows -/

/-- The line consists of the cells with at least one blank between neighbours. -/
def Spaced : Row → Text → Prop
  | [], line => line = []
  | [cell], line => line = cell
  | cell :: row, line =>
    ∃ n rest, line = cell ++ List.replicate (n + 1) ' ' ++ rest ∧ Spaced row rest

theorem spaced_putCell {row : Row} {rest : Text} (h : Spaced row.tail rest) (width : Nat) :
    Spaced row (putCell row width rest) := by
  match row with
  | [] => exact rfl
  | [cell] => exact rfl
  | cell :: next :: row => exact ⟨_, rest, rfl, h⟩

/-- A row's line: its first cell before what is laid out of the rest of the row. -/
theorem getElem?_alignColumns_succ {n : Nat} {rows : List Row} {i : Nat} {row : Row} {rest : Text}
    (hrow : rows[i]? = some row)
    (hrest : (alignColumns n (rows.map List.tail))[i]? = some rest) :
    (alignColumns (n + 1) rows)[i]? =
      some (putCell row ((runWidths 0 (rows.map leadingWidth)).1.getD i 0) rest) := by
  have hi : i < (runWidths 0 (rows.map leadingWidth)).1.length := by
    rw [length_runWidths, List.length_map]
    exact (List.getElem?_eq_some_iff.1 hrow).1
  have hwidth := List.getElem?_eq_getElem hi
  have hpair := List.getElem?_zip_eq_some (z := (_, rest)).2 ⟨hwidth, hrest⟩
  rw [List.getD_eq_getElem?_getD, hwidth]
  change (List.zipWith _ rows (List.zip _ (alignColumns n (rows.map List.tail))))[i]? = _
  rw [List.getElem?_zipWith, hrow, hpair]
  rfl

theorem spaced_alignColumns {n : Nat} {rows : List Row} {i : Nat} {row : Row}
    (hrow : rows[i]? = some row) (hlength : row.length ≤ n) :
    ∃ line, (alignColumns n rows)[i]? = some line ∧ Spaced row line := by
  induction n generalizing rows row with
  | zero =>
      have hnil : row = [] := List.eq_nil_of_length_eq_zero (Nat.le_zero.1 hlength)
      subst hnil
      refine ⟨[], ?_, rfl⟩
      rw [alignColumns, List.getElem?_map, hrow]
      rfl
  | succ n ih =>
      have htail : (rows.map List.tail)[i]? = some row.tail := by simp [hrow]
      obtain ⟨rest, hrest, hspaced⟩ := ih htail (by rw [List.length_tail]; omega)
      exact ⟨_, getElem?_alignColumns_succ hrow hrest, spaced_putCell hspaced _⟩

theorem length_le_foldr_max {row : Row} {rows : List Row} (h : row ∈ rows) :
    row.length ≤ (rows.map List.length).foldr max 0 := by
  induction rows with
  | nil => cases h
  | cons first rows ih =>
      rw [List.map_cons, List.foldr_cons]
      obtain rfl | h := List.mem_cons.1 h
      · exact Nat.le_max_left _ _
      · exact Nat.le_trans (ih h) (Nat.le_max_right _ _)

theorem spaced_align {rows : List Row} {i : Nat} {row : Row} (hrow : rows[i]? = some row) :
    ∃ line, (align rows)[i]? = some line ∧ Spaced row line :=
  spaced_alignColumns hrow (length_le_foldr_max (List.mem_of_getElem? hrow))

/-- A line holds the characters of its cells, and blanks. -/
theorem Spaced.mem {row : Row} {line : Text} (h : Spaced row line) {c : Char} (hc : c ∈ line) :
    c = ' ' ∨ ∃ cell ∈ row, c ∈ cell := by
  induction row generalizing line with
  | nil =>
      rw [show line = [] from h] at hc
      cases hc
  | cons cell row ih =>
      cases row with
      | nil =>
          rw [show line = cell from h] at hc
          exact Or.inr ⟨cell, List.mem_cons_self, hc⟩
      | cons next row =>
          obtain ⟨n, rest, rfl, hrest⟩ := h
          obtain hc | hc := List.mem_append.1 hc
          · obtain hc | hc := List.mem_append.1 hc
            · exact Or.inr ⟨cell, List.mem_cons_self, hc⟩
            · exact Or.inl (List.mem_replicate.1 hc).2
          · exact (ih hrest hc).imp_right fun ⟨d, hd, hcd⟩ => ⟨d, List.mem_cons_of_mem _ hd, hcd⟩

/-- A line begins with its first cell. -/
theorem Spaced.head {cell : Text} {row : Row} {line : Text} (h : Spaced (cell :: row) line) :
    ∃ rest, line = cell ++ rest := by
  cases row with
  | nil => exact ⟨[], by rw [List.append_nil]; exact h⟩
  | cons next row =>
      obtain ⟨n, rest, rfl, -⟩ := h
      exact ⟨_, List.append_assoc _ _ _⟩

/-! ### Lines -/

/-- The lines are those of the shapes, `none` for a blank one. -/
def IsLaidOut : List Shape → List (Option Text) → Prop
  | [], lines => lines = []
  | shape :: shapes, lines => ∃ aligned lines', lines = shape.text aligned :: lines' ∧
      Spaced shape.cells aligned ∧ IsLaidOut shapes lines'

/-- A line of code at the margin stays as it is. -/
theorem IsLaidOut.code {t : Text} {shapes : List Shape} {lines : List (Option Text)}
    (h : IsLaidOut (.code 0 t :: shapes) lines) :
    ∃ lines', lines = some t :: lines' ∧ IsLaidOut shapes lines' := by
  obtain ⟨aligned, lines', rfl, -, hlaid⟩ := h
  exact ⟨lines', rfl, hlaid⟩

theorem forall₂_align (shapes : List Shape) : List.Forall₂
    (fun shape aligned => Spaced shape.cells aligned) shapes (align (shapes.map Shape.cells)) := by
  refine List.forall₂_iff_get.2 ⟨by rw [length_align, List.length_map], fun i hi hi' => ?_⟩
  have hrow : (shapes.map Shape.cells)[i]? = some shapes[i].cells := by
    rw [List.getElem?_map, List.getElem?_eq_getElem hi, Option.map_some]
  obtain ⟨line, hline, hspaced⟩ := spaced_align hrow
  rw [List.getElem?_eq_getElem hi'] at hline
  cases hline
  exact hspaced

theorem isLaidOut_zipWith {shapes : List Shape} {texts : List Text}
    (h : List.Forall₂ (fun shape aligned => Spaced shape.cells aligned) shapes texts) :
    IsLaidOut shapes (List.zipWith (fun s aligned => s.text aligned) shapes texts) := by
  induction h with
  | nil => rfl
  | cons hspaced _ ih => exact ⟨_, _, rfl, hspaced, ih⟩

theorem isLaidOut_layout (shapes : List Shape) :
    ∃ lines, layout shapes = putLines false false lines ∧ IsLaidOut shapes lines :=
  ⟨_, rfl, isLaidOut_zipWith (forall₂_align shapes)⟩

theorem putLines_some (started : Bool) (t : Text) (lines : List (Option Text)) :
    putLines started false (some t :: lines) = t ++ '\n' :: putLines true false lines := by
  simp [putLines]

/-- Lines that are not blank are the first ones of the text that they are put together to. -/
theorem splitOn_putLines {t : Text} {ts : List Text} (hts : ∀ u ∈ t :: ts, '\n' ∉ u)
    (started : Bool) (lines : List (Option Text)) :
    Text.splitOn '\n' (putLines started false ((t :: ts).map some ++ lines)) =
      t :: ts ++ Text.splitOn '\n' (putLines true false lines) := by
  have ht := Text.splitOn_of_not_mem (hts t List.mem_cons_self)
  induction ts generalizing t started with
  | nil =>
      rw [List.map_cons, List.cons_append, putLines_some, Text.splitOn_append, ht]
      rfl
  | cons u ts ih =>
      have htail := fun v hv => hts v (List.mem_cons_of_mem t hv)
      have hrest := ih htail true (Text.splitOn_of_not_mem (htail u List.mem_cons_self))
      rw [List.map_cons, List.cons_append, putLines_some, Text.splitOn_append, hrest, ht]
      rfl

end SchemaModels.Go.Format
