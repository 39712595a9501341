import SchemaModels.Text.Basic

/-!
# Columns of cells

Rows of cells are laid out in columns. A cell is padded only if another one follows it in its row,
and the neighbouring rows of which that holds share the width of the column.
-/

namespace SchemaModels.Go.Format

abbrev Row := List Text

/-- The widths of a column: the greatest of each run of rows that have one. `seen` is the greatest
width so far of the run in which the first row stands; the second result is that of the whole
run. -/
def runWidths : (seen : Nat) → List (Option Nat) → List Nat × Nat
  | seen, [] => ([], seen)
  | seen, none :: ws => (0 :: (runWidths 0 ws).1, seen)
  | seen, some w :: ws =>
    let (widths, greatest) := runWidths (max seen w) ws
    (greatest :: widths, greatest)

/-- The width of a row's first cell, if another cell follows it. -/
def leadingWidth : Row → Option Nat
  | cell :: _ :: _ => some cell.length
  | _ => none

/-- A row's first cell with the rest of its line. -/
def putCell : Row → (width : Nat) → (rest : Text) → Text
  | [], _, _ => []
  | [cell], _, _ => cell
  | cell :: _, width, rest =>
    cell ++ List.replicate (width - cell.length + 1) ' ' ++ rest

/-- The lines for some rows, of which the first `columns` cells are laid out. -/
def alignColumns : (columns : Nat) → List Row → List Text
  | 0, rows => rows.map fun _ => []
  | n + 1, rows =>
    let widths := (runWidths 0 (rows.map leadingWidth)).1
    let rests := alignColumns n (rows.map List.tail)
    List.zipWith (fun row p => putCell row p.1 p.2) rows (widths.zip rests)

/-- The lines for some rows. -/
def align (rows : List Row) : List Text :=
  alignColumns ((rows.map List.length).foldr max 0) rows

theorem length_runWidths (seen : Nat) (ws : List (Option Nat)) :
    (runWidths seen ws).1.length = ws.length := by
  induction ws generalizing seen with
  | nil => rfl
  | cons w ws ih => cases w <;> simp [runWidths, ih]

theorem length_alignColumns (n : Nat) (rows : List Row) :
    (alignColumns n rows).length = rows.length := by
  induction n generalizing rows with
  | zero => simp [alignColumns]
  | succ n ih => simp [alignColumns, ih, length_runWidths]

theorem length_align (rows : List Row) : (align rows).length = rows.length :=
  length_alignColumns _ rows

end SchemaModels.Go.Format
