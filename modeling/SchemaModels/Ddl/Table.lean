import SchemaModels.Ddl.DataType
import SchemaModels.Ddl.Expr

/-!
# Tables

A table definition with everything that it declares in the order in which it is declared, and the
questions that are asked of it later. Column names are the same name in every letter case.
-/

namespace SchemaModels.Ddl

inductive ColumnOption
  | primaryKey
  | notNull
  | null
  | autoIncrement
  | uniqueKey
  | default (value : Expr)
  | onUpdate (value : Expr)
  | comment (text : Text)
  | collate (name : Text)
  | generated (expression : Text) (stored : Bool)
  | check (condition : Text)
  /-- A foreign key of one column, as it was written. -/
  | references (source : Text)
  deriving DecidableEq, Repr, Inhabited

structure Column where
  name : Text
  type : FieldType
  options : List ColumnOption := []
  deriving DecidableEq, Repr, Inhabited

namespace Column

def isNotNull (c : Column) : Bool := c.options.any (· matches .notNull)

/-- Whether the column says itself that it may be `NULL`. -/
def isNullable (c : Column) : Bool := c.options.any (· matches .null)

end Column

inductive ConstraintKind
  | primaryKey | unique | index | fulltext | foreignKey | check
  deriving DecidableEq, Repr, Inhabited

/-- A key or constraint of the table; one that names no columns has an empty list. -/
structure Constraint where
  kind : ConstraintKind
  name : Option Text := none
  columns : List Text := []
  deriving DecidableEq, Repr, Inhabited

inductive TableOption
  | comment (text : Text)
  | engine (name : Text)
  | charset (name : Text)
  | collate (name : Text)
  | autoIncrement (next : UInt64)
  | other (name value : Text)
  deriving DecidableEq, Repr, Inhabited

/-- A table definition. Its charset and collation are those in force, declared or not. -/
structure Table where
  name : Text
  schema : Option Text := none
  ifNotExists : Bool := false
  temporary : Bool := false
  columns : List Column := []
  constraints : List Constraint := []
  options : List TableOption := []
  charset : Option Text := none
  collation : Option Text := none
  deriving DecidableEq, Repr, Inhabited

namespace Table

/-- The first comment among the table's options. -/
def comment (t : Table) : Option Text :=
  t.options.findSome? fun
    | .comment c => some c
    | _ => none

/-- The columns that the table's primary keys name, in the order written. -/
def primaryKeyColumns (t : Table) : List Text :=
  (t.constraints.filter (·.kind = .primaryKey)).flatMap (·.columns)

def column? (t : Table) (name : Text) : Option Column :=
  t.columns.find? fun c => decide (Text.SameWord c.name name)

end Table

/-- A statement of a source text. Only table definitions are read. -/
inductive Statement
  | createTable (table : Table)
  | other
  deriving DecidableEq, Repr, Inhabited

/-- The table definitions among some statements. -/
def tablesOf (statements : List Statement) : List Table :=
  statements.filterMap fun
    | .createTable t => some t
    | .other => none

end SchemaModels.Ddl
