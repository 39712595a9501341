import SchemaModels.Ddl.ParseError
import SchemaModels.Go.FieldType
import SchemaModels.Go.Struct
import SchemaModels.Model.Tag
import SchemaModels.Naming.Plural
import SchemaModels.Text.Numeric

/-!
# Structs from tables

A table becomes a struct with one field per column. Only a column that says `NULL` itself gets a
type that can be `NULL`. The first column whose type has no counterpart fails the whole table.
-/

namespace SchemaModels.Model

open Ddl (Column Table ParseError)

inductive GenerateError
  | parse (e : ParseError)
  | unsupportedType (table column declaration : Text)
  | format (table : Text) (e : Go.FormatError) (draft : Text)
  deriving DecidableEq, Repr, Inhabited

namespace GenerateError

def message : GenerateError → Text
  | .parse e => "Parse error: " ++ e.report
  | .unsupportedType t c d =>
    "Table '" ++ t ++ "': column '" ++ c ++ "' has unsupported type '" ++ d ++ "'"
  | .format t e _ => "Table '" ++ t ++ "': failed to format generated code: " ++ e.message

/-- The table that failed. -/
def table? : GenerateError → Option Text
  | .parse _ => none
  | .unsupportedType t _ _ | .format t _ _ => some t

end GenerateError

/-- The name that a struct is named after, and whether the prefix was found. A prefix stays if
nothing or a digit would follow it. -/
def stripTablePrefix (tablePrefix name : Text) : Text × Bool :=
  if tablePrefix = [] then (name, false)
  else match Text.after? tablePrefix name with
    | some (c :: t) => (if Text.isNumeric c then name else c :: t, true)
    | some [] => (name, true)
    | none => (name, false)

def stripColumnPrefix (columnPrefix name : Text) : Text :=
  (Text.after? columnPrefix name).getD name

def fieldType? (o : Options) (c : Column) : Option Go.FieldType :=
  Go.fieldType? c.type (if c.isNullable then o.effectiveNullStyle else .disabled) o.judgeUnsigned

/-- The field of a column with the type that was found for it. -/
def fieldOf (o : Options) (c : Column) (settings : List Setting) (type : Go.FieldType) :
    Go.Field :=
  { name := Naming.fieldName o.acronyms (stripColumnPrefix o.columnPrefix c.name)
    type := type.text
    tag := joinTags (tagPairs c settings o.jsonTag)
    comment := columnComment c }

/-- The fields of a table's columns with their types, where the given primary keys are known. -/
def fieldsOf (o : Options) (table : Text) :
    TextSet → List Column → Except GenerateError (List (Go.Field × Go.FieldType))
  | _, [] => .ok []
  | keys, c :: cs => do
    let (settings, keys) := columnSettings c keys o.gormType
    match fieldType? o c with
    | none => .error (.unsupportedType table c.name c.type.declaration)
    | some type => return (fieldOf o c settings type, type) :: (← fieldsOf o table keys cs)

def importsOf (types : List Go.FieldType) : TextSet :=
  .ofList (types.filterMap fun t => t.package.map Go.Package.path)

/-- The comment of a struct begins with its name. -/
def structComment (name : Text) (t : Table) : Text :=
  match t.comment with
  | some c => name ++ " " ++ withoutNewlines c
  | none => name ++ " ."

/-- The struct of a table. The method that returns the table's name can be left out only where the
name is the plural that the struct's name leads to. -/
def structOf (o : Options) (t : Table) : Except GenerateError Go.Struct := do
  let (stripped, hadPrefix) := stripTablePrefix o.tablePrefix t.name
  let name := Naming.camel o.acronyms stripped
  let fields ← fieldsOf o t.name (.ofList t.primaryKeyColumns) t.columns
  return {
    name
    tableName := t.name
    comment := structComment name t
    fields := fields.map (·.1)
    hasTableName := hadPrefix || o.forceTableName || !Naming.isPlural t.name
    imports := importsOf (fields.map (·.2)) }

end SchemaModels.Model
