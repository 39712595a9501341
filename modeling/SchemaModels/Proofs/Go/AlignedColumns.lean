import SchemaModels.Proofs.Go.Layout

/-!
# Columns start together

The width of a column is constant along the rows that stand next to each other and have a cell
behind it (`runWidths_constant`), no cell is longer (`le_runWidths`), and over a whole run of such
rows some cell is that long (`exists_runWidths_eq`). Rows in a run for one column share the widths
of all columns before it, so that their next cells start together (`length_textBefore_of_next`).
-/

namespace SchemaModels.Go.Format

/-! ### The widths of one column -/

theorem le_runWidths_snd (seen : Nat) (ws : List (Option Nat)) : seen ≤ (runWidths seen ws).2 := by
  induction ws generalizing seen with
  | nil => exact Nat.le_refl _
  | cons w ws ih =>
      cases w with
      | none => exact Nat.le_refl _
      | some w => exact Nat.le_trans (Nat.le_max_left _ _) (ih (max seen w))

theorem le_runWidths {ws : List (Option Nat)} {i w : Nat} (h : ws[i]? = some (some w))
    (seen : Nat) : w ≤ (runWidths seen ws).1.getD i 0 := by
  induction ws generalizing i seen with
  | nil => cases h
  | cons first ws ih =>
      match first, i with
      | none, 0 => cases h
      | none, i + 1 => exact ih h 0
      | some v, 0 =>
        cases h
        exact Nat.le_trans (Nat.le_max_right seen w) (le_runWidths_snd _ ws)
      | some v, i + 1 => exact ih h (max seen v)

theorem runWidths_succ {ws : List (Option Nat)} {i w v : Nat} (h : ws[i]? = some (some w))
    (h' : ws[i + 1]? = some (some v)) (seen : Nat) :
    (runWidths seen ws).1.getD i 0 = (runWidths seen ws).1.getD (i + 1) 0 := by
  induction ws generalizing i seen with
  | nil => cases h
  | cons first ws ih =>
      match first, i with
      | none, 0 => cases h
      | none, i + 1 => exact ih h h' 0
      | some _, 0 =>
        match ws, h' with
        | some _ :: ws, _ => rfl
      | some u, i + 1 => exact ih h h' (max seen u)

/-- Rows of one run share the width of the column. -/
theorem runWidths_constant {ws : List (Option Nat)} {a b : Nat}
    (h : ∀ i, a ≤ i → i < b → ∃ w, ws[i]? = some (some w)) {i : Nat} (hai : a ≤ i) (hib : i < b) :
    (runWidths 0 ws).1.getD i 0 = (runWidths 0 ws).1.getD a 0 := by
  induction hai with
  | refl => rfl
  | @step i hai ih =>
      have hai : a ≤ i := hai
      obtain ⟨w, hw⟩ := h i hai (by omega)
      obtain ⟨v, hv⟩ := h (i + 1) (by omega) hib
      rw [← runWidths_succ hw hv, ih (by omega)]

/-- The width of a run is one that was seen, or that of a row in it. -/
theorem runWidths_snd_eq (seen : Nat) (ws : List (Option Nat)) :
    (runWidths seen ws).2 = seen ∨ ∃ j : Nat, ws[j]? = some (some (runWidths seen ws).2) ∧
      ∀ i ≤ j, ∃ w, ws[i]? = some (some w) := by
  induction ws generalizing seen with
  | nil => exact .inl rfl
  | cons first ws ih =>
      match first with
      | none => exact .inl rfl
      | some w =>
        have hsnd : (runWidths seen (some w :: ws)).2 = (runWidths (max seen w) ws).2 := rfl
        rw [hsnd]
        obtain heq | ⟨j, hj, hrun⟩ := ih (max seen w)
        · rw [heq]
          obtain hle | hle := Nat.le_total w seen
          · exact .inl (Nat.max_eq_left hle)
          · refine .inr ⟨0, by rw [Nat.max_eq_right hle]; rfl, fun i hi => ?_⟩
            obtain rfl := Nat.le_zero.1 hi
            exact ⟨w, rfl⟩
        · refine .inr ⟨j + 1, hj, fun i hi => ?_⟩
          match i with
          | 0 => exact ⟨w, rfl⟩
          | i + 1 => exact hrun i (by omega)

/-- Behind a row without a cell to pad, the widths are those of the rows that follow. -/
theorem drop_runWidths {ws : List (Option Nat)} {i : Nat} (h : ws[i]? = some none) (seen : Nat) :
    (runWidths seen ws).1.drop (i + 1) = (runWidths 0 (ws.drop (i + 1))).1 := by
  induction ws generalizing i seen with
  | nil => cases h
  | cons first ws ih =>
      match first, i with
      | none, 0 => rfl
      | some _, 0 => cases h
      | none, i + 1 => exact ih h 0
      | some w, i + 1 => exact ih h (max seen w)

/-- A whole run of rows is as wide as one of its cells. -/
theorem exists_runWidths_eq {ws : List (Option Nat)} {a b : Nat} (hab : a < b)
    (h : ∀ i, a ≤ i → i < b → ∃ w, ws[i]? = some (some w))
    (hbefore : ∀ i, i + 1 = a → ws[i]? = some none)
    (hafter : ∀ w, ws[b]? ≠ some (some w)) :
    ∃ i, a ≤ i ∧ i < b ∧ ws[i]? = some (some ((runWidths 0 ws).1.getD i 0)) := by
  have hdrop : (runWidths 0 ws).1.drop a = (runWidths 0 (ws.drop a)).1 := by
    match a, hbefore with
    | 0, _ => rfl
    | i + 1, hbefore => exact drop_runWidths (hbefore i rfl) 0
  obtain ⟨w, hw⟩ := h a (Nat.le_refl a) hab
  obtain ⟨rest, hrest⟩ : ∃ rest, ws.drop a = some w :: rest := by
    obtain ⟨hlength, hget⟩ := List.getElem?_eq_some_iff.1 hw
    exact ⟨_, by rw [List.drop_eq_getElem_cons hlength, hget]⟩
  have hwidth : (runWidths 0 ws).1.getD a 0 = (runWidths 0 (ws.drop a)).2 := by
    have hhead := congrArg (List.getD · 0 0) hdrop
    simp only [List.getD_eq_getElem?_getD, List.getElem?_drop, Nat.add_zero] at hhead
    rw [List.getD_eq_getElem?_getD, hhead, hrest]
    rfl
  obtain hzero | ⟨j, hj, hrun⟩ := runWidths_snd_eq 0 (ws.drop a)
  · -- All cells are empty then, the first one among them.
    have hle := le_runWidths hw 0
    rw [hwidth, hzero, Nat.le_zero] at hle
    exact ⟨a, Nat.le_refl a, hab, by rw [hw, hwidth, hzero, hle]⟩
  · have hjb : a + j < b := by
      by_contra hjb
      obtain ⟨v, hv⟩ := hrun (b - a) (by omega)
      rw [List.getElem?_drop, Nat.add_sub_cancel' (by omega)] at hv
      exact hafter v hv
    refine ⟨a + j, by omega, hjb, ?_⟩
    rw [runWidths_constant h (by omega) hjb, hwidth, ← hj, List.getElem?_drop]

/-! ### Lines and their gaps -/

/-- The line for a row with `gaps c` spaces behind its cell `c`, and none behind the last one. -/
def lineWith : (gaps : Nat → Nat) → Row → Text
  | _, [] => []
  | _, [cell] => cell
  | gaps, cell :: next :: row =>
    cell ++ List.replicate (gaps 0) ' ' ++ lineWith (fun c => gaps (c + 1)) (next :: row)

/-- What stands before cell `c` in the line for a row. -/
def textBefore : (gaps : Nat → Nat) → Row → (c : Nat) → Text
  | gaps, cell :: row, c + 1 =>
    cell ++ List.replicate (gaps 0) ' ' ++ textBefore (fun c => gaps (c + 1)) row c
  | _, _, _ => []

theorem lineWith_eq_append {gaps : Nat → Nat} {row : Row} {c : Nat} (h : c < row.length) :
    lineWith gaps row =
      textBefore gaps row c ++ lineWith (fun d => gaps (c + d)) (row.drop c) := by
  induction c generalizing gaps row with
  | zero => simp [textBefore]
  | succ c ih =>
      match row with
      | [] => cases h
      | [_] => exact absurd h (by simp)
      | cell :: next :: row =>
        have htail := @ih (fun d => gaps (d + 1)) (next :: row) (Nat.lt_of_succ_lt_succ h)
        have hgaps : (fun d => gaps (c + d + 1)) = fun d => gaps (c + 1 + d) := by
          simp only [Nat.add_right_comm]
        rw [lineWith, textBefore, htail, hgaps, List.drop_succ_cons]
        simp only [List.append_assoc]

/-- The spaces behind a cell: as many as its column is wider, and one more. -/
def gapBehind : List Row → (c i : Nat) → Nat
  | rows, 0, i =>
    (runWidths 0 (rows.map leadingWidth)).1.getD i 0 - ((rows.getD i []).headD []).length + 1
  | rows, c + 1, i => gapBehind (rows.map List.tail) c i

theorem gapBehind_pos (rows : List Row) (c i : Nat) : 1 ≤ gapBehind rows c i := by
  induction c generalizing rows with
  | zero => exact Nat.le_add_left 1 _
  | succ c ih => exact ih _

theorem alignColumns_eq {n : Nat} {rows : List Row} {i : Nat} {row : Row}
    (hrow : rows[i]? = some row) (hlength : row.length ≤ n) :
    (alignColumns n rows)[i]? = some (lineWith (gapBehind rows · i) row) := by
  induction n generalizing rows row with
  | zero =>
      obtain rfl : row = [] := List.eq_nil_of_length_eq_zero (Nat.le_zero.1 hlength)
      rw [alignColumns, List.getElem?_map, hrow]
      rfl
  | succ n ih =>
      have htail : (rows.map List.tail)[i]? = some row.tail := by simp [hrow]
      have hrest := ih htail (by rw [List.length_tail]; omega)
      rw [getElem?_alignColumns_succ hrow hrest]
      rcases row with _ | ⟨cell, _ | ⟨next, row⟩⟩
      · rfl
      · rfl
      · have hcell : rows.getD i [] = cell :: next :: row := by
          rw [List.getD_eq_getElem?_getD, hrow]
          rfl
        have hgap : gapBehind rows 0 i =
            (runWidths 0 (rows.map leadingWidth)).1.getD i 0 - cell.length + 1 := by
          rw [gapBehind, hcell]
          rfl
        rw [putCell, lineWith, hgap]
        · rfl
        · simp

/-! ### Runs of rows -/

/-- Row `i` has a cell behind its cell `c`. -/
def HasNext (rows : List Row) (c i : Nat) : Prop := ∃ row, rows[i]? = some row ∧ c + 1 < row.length

instance (rows : List Row) (c i : Nat) : Decidable (HasNext rows c i) :=
  decidable_of_iff (rows[i]?.any fun row => decide (c + 1 < row.length)) (by
    cases hrow : rows[i]? <;> simp [HasNext, hrow])

/-- The rows from `a` to before `b` have a cell behind cell `c`, and neither the row before them
nor the one after them has. -/
structure IsRun (rows : List Row) (c a b : Nat) : Prop where
  nonempty : a < b
  hasNext : ∀ i, a ≤ i → i < b → HasNext rows c i
  before : ∀ i, i + 1 = a → ¬ HasNext rows c i
  after : ¬ HasNext rows c b

theorem hasNext_map_tail {rows : List Row} {c i : Nat} :
    HasNext (rows.map List.tail) c i ↔ HasNext rows (c + 1) i := by
  simp only [HasNext, List.getElem?_map, Option.map_eq_some_iff]
  constructor
  · rintro ⟨_, ⟨row, hrow, rfl⟩, h⟩
    exact ⟨row, hrow, by rw [List.length_tail] at h; omega⟩
  · rintro ⟨row, hrow, h⟩
    exact ⟨_, ⟨row, hrow, rfl⟩, by rw [List.length_tail]; omega⟩

theorem IsRun.tail {rows : List Row} {c a b : Nat} (h : IsRun rows (c + 1) a b) :
    IsRun (rows.map List.tail) c a b where
  nonempty := h.nonempty
  hasNext i hai hib := hasNext_map_tail.2 (h.hasNext i hai hib)
  before i hi hnext := h.before i hi (hasNext_map_tail.1 hnext)
  after hnext := h.after (hasNext_map_tail.1 hnext)

theorem HasNext.of_le {rows : List Row} {c d i : Nat} (h : HasNext rows d i) (hcd : c ≤ d) :
    HasNext rows c i :=
  let ⟨row, hrow, hd⟩ := h
  ⟨row, hrow, by omega⟩

theorem hasNext_zero_iff {rows : List Row} {i : Nat} :
    HasNext rows 0 i ↔ ∃ w, (rows.map leadingWidth)[i]? = some (some w) := by
  simp only [HasNext, List.getElem?_map, Option.map_eq_some_iff]
  constructor
  · rintro ⟨row, hrow, h⟩
    match row with
    | [] => exact absurd h (by simp)
    | [_] => exact absurd h (by simp)
    | cell :: next :: row => exact ⟨_, _, hrow, rfl⟩
  · rintro ⟨w, row, hrow, h⟩
    match row with
    | [] => cases h
    | [_] => cases h
    | cell :: next :: row => exact ⟨_, hrow, by simp⟩

/-- In a row with two cells, the first one and the gap behind it are as long as its column is
wide, with one more. -/
theorem length_add_gapBehind {rows : List Row} {i : Nat} {cell : Text} {row : Row}
    (hrow : rows[i]? = some (cell :: row)) (hnext : row ≠ []) :
    cell.length + gapBehind rows 0 i = (runWidths 0 (rows.map leadingWidth)).1.getD i 0 + 1 := by
  obtain ⟨next, row, rfl⟩ := List.exists_cons_of_ne_nil hnext
  have hle := le_runWidths (show (rows.map leadingWidth)[i]? = some (some cell.length) by
    rw [List.getElem?_map, hrow]; rfl) 0
  have hcell : (rows.getD i []).headD [] = cell := by
    rw [List.getD_eq_getElem?_getD, hrow]
    rfl
  rw [gapBehind, hcell]
  omega

/-- Rows next to each other that have a cell behind cell `c` have it at one offset. -/
theorem length_textBefore_of_next {rows : List Row} {c a b : Nat}
    (h : ∀ i, a ≤ i → i < b → HasNext rows c i) :
    ∃ start, ∀ i row, a ≤ i → i < b → rows[i]? = some row →
      (textBefore (gapBehind rows · i) row (c + 1)).length = start := by
  have hwidths : ∀ i, a ≤ i → i < b → ∃ w, (rows.map leadingWidth)[i]? = some (some w) :=
    fun i hai hib => hasNext_zero_iff.1 ((h i hai hib).of_le (Nat.zero_le c))
  have hcell : ∀ {i : Nat} {cell : Text} {row : Row}, a ≤ i → i < b →
      rows[i]? = some (cell :: row) → cell.length + gapBehind rows 0 i =
        (runWidths 0 (rows.map leadingWidth)).1.getD a 0 + 1 := by
    intro i cell row hai hib hrow
    rw [← runWidths_constant hwidths hai hib]
    refine length_add_gapBehind hrow ?_
    rintro rfl
    obtain ⟨w, hw⟩ := hwidths i hai hib
    rw [List.getElem?_map, hrow] at hw
    cases hw
  -- The first column is followed by `c` more, in the rows without their first cells.
  obtain ⟨start, hstart⟩ : ∃ start, ∀ i row, a ≤ i → i < b → rows[i]? = some row →
      (textBefore (fun d => gapBehind rows (d + 1) i) row.tail c).length = start := by
    match c with
    | 0 => exact ⟨0, fun i row _ _ _ => by cases row.tail <;> rfl⟩
    | c + 1 =>
      have htails : ∀ i, a ≤ i → i < b → HasNext (rows.map List.tail) c i :=
        fun i hai hib => hasNext_map_tail.2 (h i hai hib)
      obtain ⟨start, hstart⟩ := length_textBefore_of_next htails
      refine ⟨start, fun i row hai hib hrow => ?_⟩
      exact hstart i row.tail hai hib (by rw [List.getElem?_map, hrow]; rfl)
  refine ⟨(runWidths 0 (rows.map leadingWidth)).1.getD a 0 + 1 + start,
    fun i row hai hib hrow => ?_⟩
  match row with
  | [] =>
    obtain ⟨w, hw⟩ := hwidths i hai hib
    rw [List.getElem?_map, hrow] at hw
    cases hw
  | cell :: row =>
    have htail := hstart i _ hai hib hrow
    rw [textBefore, List.length_append, List.length_append, List.length_replicate,
      hcell hai hib hrow]
    exact congrArg _ htail

/-- In a run of rows, one has a single space behind the cell. -/
theorem IsRun.exists_gapBehind_eq_one {rows : List Row} {c a b : Nat} (h : IsRun rows c a b) :
    ∃ i, a ≤ i ∧ i < b ∧ gapBehind rows c i = 1 := by
  induction c generalizing rows with
  | succ c ih => exact ih h.tail
  | zero =>
      have hnone : ∀ i, i + 1 = a → (rows.map leadingWidth)[i]? = some none := by
        intro i hi
        obtain ⟨row, hrow, -⟩ := h.hasNext a (Nat.le_refl a) h.nonempty
        have hlength : i < (rows.map leadingWidth).length := by
          rw [List.length_map]
          have := (List.getElem?_eq_some_iff.1 hrow).1
          omega
        have hget := List.getElem?_eq_getElem hlength
        cases hwidth : (rows.map leadingWidth)[i] with
        | none => rw [hget, hwidth]
        | some w => exact absurd (hasNext_zero_iff.2 ⟨w, by rw [hget, hwidth]⟩) (h.before i hi)
      obtain ⟨i, hai, hib, hwidth⟩ := exists_runWidths_eq h.nonempty
        (fun i hai hib => hasNext_zero_iff.1 (h.hasNext i hai hib)) hnone
        fun w hw => h.after (hasNext_zero_iff.2 ⟨w, hw⟩)
      refine ⟨i, hai, hib, ?_⟩
      obtain ⟨row, hrow, hlength⟩ := h.hasNext i hai hib
      match row with
      | cell :: row =>
        have hsum := length_add_gapBehind hrow (by rintro rfl; simp at hlength)
        rw [List.getElem?_map, hrow] at hwidth
        obtain ⟨next, row, rfl⟩ := List.exists_cons_of_ne_nil
          (show row ≠ [] by rintro rfl; simp at hlength)
        have hwidest : cell.length = (runWidths 0 (rows.map leadingWidth)).1.getD i 0 :=
          Option.some.inj (Option.some.inj hwidth)
        omega

/-- Every row has a line, with its cells in order, at least one space between neighbours and
nothing behind the last one. Over a run of rows that have a cell behind cell `c`, this cell starts
at one offset in all lines, and one line has a single space before it. -/
theorem align_columns (rows : List Row) : ∃ gaps : Nat → Nat → Nat,
    align rows = rows.mapIdx (fun i row => lineWith (gaps i) row) ∧
    (∀ i c, 1 ≤ gaps i c) ∧
    (∀ i row c, rows[i]? = some row → c < row.length → (align rows)[i]? =
      some (textBefore (gaps i) row c ++ lineWith (fun d => gaps i (c + d)) (row.drop c))) ∧
    ∀ c a b, IsRun rows c a b →
      (∃ start, ∀ i row, a ≤ i → i < b → rows[i]? = some row →
        (textBefore (gaps i) row (c + 1)).length = start) ∧
      ∃ i, a ≤ i ∧ i < b ∧ gaps i c = 1 := by
  have hline : ∀ {i : Nat} {row : Row}, rows[i]? = some row →
      (align rows)[i]? = some (lineWith (gapBehind rows · i) row) :=
    fun hrow => alignColumns_eq hrow (length_le_foldr_max (List.mem_of_getElem? hrow))
  refine ⟨fun i c => gapBehind rows c i, ?_, fun i c => gapBehind_pos rows c i, ?_, ?_⟩
  · refine List.ext_getElem? fun i => ?_
    rw [List.getElem?_mapIdx]
    cases hrow : rows[i]? with
    | some row => exact hline hrow
    | none =>
      exact List.getElem?_eq_none (by rwa [length_align, ← List.getElem?_eq_none_iff])
  · intro i row c hrow hc
    rw [hline hrow, lineWith_eq_append hc]
  · exact fun c a b h => ⟨length_textBefore_of_next h.hasNext, h.exists_gapBehind_eq_one⟩

/-- Two fields with a tag, a name alone, and a field behind it. -/
theorem align_columns_of_fields :
    let rows : List Row := [["A".toList, "int32".toList, "a".toList, "// one".toList],
      ["Longer".toList, "string".toList, "longer".toList], ["B".toList],
      ["C".toList, "int64".toList]]
    IsRun rows 1 0 2 ∧ ∃ gaps : Nat → Nat → Nat,
      align rows = rows.mapIdx (fun i row => lineWith (gaps i) row) ∧
      (∃ start, ∀ i row, 0 ≤ i → i < 2 → rows[i]? = some row →
        (textBefore (gaps i) row 2).length = start) ∧
      ∃ i, 0 ≤ i ∧ i < 2 ∧ gaps i 1 = 1 := by
  intro rows
  have hrun : IsRun rows 1 0 2 :=
    ⟨by decide, fun i _ hi => by
      match i with
      | 0 => decide
      | 1 => decide, by omega, by decide⟩
  obtain ⟨gaps, hlines, -, -, hruns⟩ := align_columns rows
  exact ⟨hrun, gaps, hlines, hruns 1 0 2 hrun⟩

end SchemaModels.Go.Format
