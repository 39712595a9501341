import SchemaModels.Ddl.Statement.Parser

/-!
# The names in a definition

The names that a table definition gives (`Table.names`), and the definition with each of them
replaced (`Table.rename`). A kind of values with names in them (`Naming`) says how its names are
listed and replaced; lists and optional values have the names of what is in them.
-/

namespace SchemaModels.Ddl

/-- Values with names in them. -/
structure Naming (α : Type) where
  names : α → List Text
  rename : (Text → Text) → α → α
  names_rename (f : Text → Text) (a : α) : names (rename f a) = (names a).map f
  rename_eq_self {f : Text → Text} {a : α} (h : ∀ n ∈ names a, f n = n) : rename f a = a

namespace Naming

def text : Naming Text where
  names n := [n]
  rename f := f
  names_rename _ _ := rfl
  rename_eq_self h := h _ List.mem_cons_self

/-- Values beside which others stand that have no names. -/
def snd (N : Naming α) : Naming (β × α) where
  names x := N.names x.2
  rename f := Prod.map id (N.rename f)
  names_rename f x := N.names_rename f x.2
  rename_eq_self h := Prod.ext rfl (N.rename_eq_self h)

def list (N : Naming α) : Naming (List α) where
  names := List.flatMap N.names
  rename f := List.map (N.rename f)
  names_rename f as := by
    rw [List.flatMap_map, List.map_flatMap]
    exact congrArg (List.flatMap · as) (funext fun a => N.names_rename f a)
  rename_eq_self {f as} h := by
    have hall (a : α) (ha : a ∈ as) : N.rename f a = id a :=
      N.rename_eq_self fun n hn => h n (List.mem_flatMap.2 ⟨a, ha, hn⟩)
    rw [List.map_congr_left hall, List.map_id]

def option (N : Naming α) : Naming (Option α) where
  names a := a.toList.flatMap N.names
  rename f := Option.map (N.rename f)
  names_rename f a := by
    cases a with
    | none => rfl
    | some a => simpa using N.names_rename f a
  rename_eq_self {f a} h := by
    cases a with
    | none => rfl
    | some a => exact congrArg some (N.rename_eq_self fun n hn => h n (by simpa using hn))

/-- Values that are made of two others with names. -/
def both (N : Naming α) (M : Naming β) : Naming (α × β) where
  names x := N.names x.1 ++ M.names x.2
  rename f := Prod.map (N.rename f) (M.rename f)
  names_rename f x := by
    rw [List.map_append, ← N.names_rename, ← M.names_rename]
    rfl
  rename_eq_self h := Prod.ext (N.rename_eq_self fun n hn => h n (List.mem_append_left _ hn))
    (M.rename_eq_self fun n hn => h n (List.mem_append_right _ hn))

end Naming

/-! ### Definitions -/

def Column.names (c : Column) : List Text := [c.name]

def Column.rename (f : Text → Text) (c : Column) : Column := { c with name := f c.name }

def Constraint.names (c : Constraint) : List Text := c.name.toList ++ c.columns

def Constraint.rename (f : Text → Text) (c : Constraint) : Constraint :=
  { c with name := c.name.map f, columns := c.columns.map f }

def Table.names (t : Table) : List Text :=
  t.schema.toList ++ t.name :: (t.columns.flatMap Column.names ++
    t.constraints.flatMap Constraint.names)

def Table.rename (f : Text → Text) (t : Table) : Table :=
  { t with
    schema := t.schema.map f
    name := f t.name
    columns := t.columns.map (Column.rename f)
    constraints := t.constraints.map (Constraint.rename f) }

def Statement.names : Statement → List Text
  | .createTable t => t.names
  | .other => []

def Statement.rename (f : Text → Text) : Statement → Statement
  | .createTable t => .createTable (t.rename f)
  | .other => .other

def TableEntry.names : TableEntry → List Text
  | .column c => c.names
  | .constraint c => c.names

def TableEntry.rename (f : Text → Text) : TableEntry → TableEntry
  | .column c => .column (c.rename f)
  | .constraint c => .constraint (c.rename f)

namespace Naming

def column : Naming Column where
  names := Column.names
  rename := Column.rename
  names_rename _ _ := rfl
  rename_eq_self {f c} h := by
    obtain ⟨name, type, options⟩ := c
    exact congrArg (Column.mk · type options) (h name List.mem_cons_self)

def constraint : Naming Constraint where
  names := Constraint.names
  rename := Constraint.rename
  names_rename f c := by
    obtain ⟨kind, _ | name, columns⟩ := c <;> rfl
  rename_eq_self {f c} h := by
    obtain ⟨kind, name, columns⟩ := c
    have hname := (option text).rename_eq_self (f := f) (a := name) fun n hn =>
      h n (List.mem_append_left _ (by simpa [option, text] using hn))
    have hcolumns := (list text).rename_eq_self (f := f) (a := columns) fun n hn =>
      h n (List.mem_append_right _ (by simpa [list, text] using hn))
    exact (congrArg (Constraint.mk kind · _) hname).trans
      (congrArg (Constraint.mk kind name) hcolumns)

def table : Naming Table where
  names := Table.names
  rename := Table.rename
  names_rename f t := by
    show (t.schema.map f).toList ++ f t.name ::
      ((list column).names ((list column).rename f t.columns) ++
        (list constraint).names ((list constraint).rename f t.constraints)) = _
    rw [(list column).names_rename, (list constraint).names_rename, Option.toList_map]
    simp only [Table.names, List.map_append, List.map_cons]
    rfl
  rename_eq_self {f t} h := by
    have hschema : t.schema.map f = t.schema := (option text).rename_eq_self fun n hn =>
      h n (List.mem_append_left _ (by simpa [option, text] using hn))
    have hname : f t.name = t.name := h t.name (List.mem_append_right _ List.mem_cons_self)
    have hcolumns : t.columns.map (Column.rename f) = t.columns :=
      (list column).rename_eq_self fun n hn =>
        h n (List.mem_append_right _ (List.mem_cons_of_mem _ (List.mem_append_left _ hn)))
    have hconstraints : t.constraints.map (Constraint.rename f) = t.constraints :=
      (list constraint).rename_eq_self fun n hn =>
        h n (List.mem_append_right _ (List.mem_cons_of_mem _ (List.mem_append_right _ hn)))
    simp only [Table.rename, hschema, hname, hcolumns, hconstraints]

def entry : Naming TableEntry where
  names := TableEntry.names
  rename := TableEntry.rename
  names_rename f e := by
    cases e with
    | column c => exact column.names_rename f c
    | constraint c => exact constraint.names_rename f c
  rename_eq_self {f e} h := by
    cases e with
    | column c => exact congrArg TableEntry.column (column.rename_eq_self h)
    | constraint c => exact congrArg TableEntry.constraint (constraint.rename_eq_self h)

def statement : Naming Statement where
  names := Statement.names
  rename := Statement.rename
  names_rename f s := by
    cases s with
    | createTable t => exact table.names_rename f t
    | other => rfl
  rename_eq_self {f s} h := by
    cases s with
    | createTable t => exact congrArg Statement.createTable (table.rename_eq_self h)
    | other => rfl

end Naming

end SchemaModels.Ddl
