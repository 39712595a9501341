import SchemaModels.Go.Format
import SchemaModels.Go.Literal
import SchemaModels.Text.Ascending

/-!
# Structs and files

A struct with its fields, before it is written. `Struct.draft` writes it without regard to layout,
`Struct.render` formats the draft; a file is a package clause, its imports and its structs.
-/

namespace SchemaModels.Go

structure Field where
  name : Text
  type : Text
  /-- The tag without the backquotes around it. -/
  tag : Text
  comment : Option Text := none
  deriving DecidableEq, Repr, Inhabited

structure Struct where
  name : Text
  /-- The name of the table, which the method `TableName` returns. -/
  tableName : Text
  comment : Text
  fields : List Field
  hasTableName : Bool
  /-- The import paths that the types of the fields need. -/
  imports : TextSet := .empty
  deriving DecidableEq, Inhabited

def Field.draft (f : Field) : Text :=
  "\t" ++ f.name ++ " " ++ f.type ++ " `" ++ f.tag ++ "`" ++
    (match f.comment with
      | some c => " // " ++ c
      | none => []) ++ "\n"

namespace Struct

/-- The method that returns the name of the table. -/
def tableNameMethod (s : Struct) : Text :=
  "\n// TableName .\n" ++ "func (m *" ++ s.name ++ ") TableName() string \x7b\n" ++
    "\treturn " ++ quoted s.tableName ++ "\n\x7d\n"

def draft (s : Struct) : Text :=
  "// " ++ s.comment ++ "\ntype " ++ s.name ++ " struct \x7b\n" ++ s.fields.flatMap Field.draft ++
    "\x7d\n" ++ (if s.hasTableName then s.tableNameMethod else [])

def render (s : Struct) : Except FormatError Text := format s.draft

end Struct

def importLine (path : Text) : Text := "\t" ++ quoted path ++ "\n"

def importClause : List Text → Text
  | [] => []
  | paths => "\nimport (\n" ++ paths.flatMap importLine ++ ")\n"

/-- A file from its parts, the imports and structs in the order given. -/
def renderFile (package : Text) (imports structs : List Text) : Text :=
  "package " ++ package ++ "\n" ++ importClause imports ++ structs.flatMap ('\n' :: ·)

end SchemaModels.Go
