import SchemaModels.Ddl.Table.Parser
import SchemaModels.Model.Options
import SchemaModels.Tool.Error
import SchemaModels.Tool.Profile

/-!
# Settings

A profile in which everything open has been filled in. Overwriting the models of all tables has to
be permitted in so many words.
-/

namespace SchemaModels.Tool

open Ddl (TableDefaults)
open Model (Options NullStyle)

inductive Input
  | sql (source : Text)
  | file (p : Path)
  deriving DecidableEq, Repr, Inhabited

inductive TableFilter
  | all
  | only (names : List Text)
  deriving DecidableEq, Repr, Inhabited

namespace TableFilter

/-- The tables named in a list with commas; all of them where no name is left, or where one of the
names is a star. -/
def ofText (t : Text) : TableFilter :=
  let names := ((Text.splitOn ',' t).map Text.trim).filter (· ≠ [])
  if names = [] ∨ ['*'] ∈ names then .all else .only names

def accepts : TableFilter → Text → Bool
  | .all, _ => true
  | .only names, table => table ∈ names

end TableFilter

structure Settings where
  input : Input
  output : Path
  tables : TableFilter
  update : Bool
  /-- The number of tables generated at once, where it is set. -/
  jobs : Option UInt64
  options : Options
  defaults : TableDefaults
  deriving DecidableEq, Inhabited

namespace Settings

/-- Where the definitions come from; a text goes before a file. -/
def inputOf (p : Profile) : Except Error Input :=
  match p.get .sql, p.get .file with
  | some source, _ => .ok (.sql source)
  | none, some path => .ok (.file path)
  | none, none => .error .noInput

def tablesOf (p : Profile) : TableFilter :=
  match p.get .table with
  | some t => .ofText t
  | none => .all

/-- A switch that is left open is off. -/
def isOn (switch : Option Bool) : Bool := switch.getD false

/-- The null style; a blank name counts as none. -/
def nullStyleOf (p : Profile) : Except Error NullStyle :=
  match p.get .nullStyle with
  | none => .ok .wrapped
  | some name =>
    if Text.trim name = [] then .ok .wrapped
    else match NullStyle.ofText? name with
      | some s => .ok s
      | none => .error (.nullStyle name)

def optionsOf (p : Profile) (style : NullStyle) : Options :=
  { jsonTag := isOn (p.get .jsonTag)
    tablePrefix := (p.get .tablePrefix).getD []
    columnPrefix := (p.get .columnPrefix).getD []
    noNullType := isOn (p.get .noNullType)
    nullStyle := style
    package := (p.get .package).getD ("model" : Text)
    gormType := isOn (p.get .gormType)
    forceTableName := isOn (p.get .forceTableName)
    judgeUnsigned := isOn (p.get .judgeUnsigned)
    acronyms := ((p.get .acronyms).map Naming.Acronyms.ofList).getD .standard }

def resolve (p : Profile) : Except Error Settings := do
  let input ← inputOf p
  let tables := tablesOf p
  let update := isOn (p.get .update)
  if update && tables = .all && !isOn (p.get .enforcement) then throw .unguardedUpdate
  let style ← nullStyleOf p
  return {
    input, tables, update
    output := (p.get .output).getD ("." : Path)
    jobs := (p.get .jobs).map (max 1)
    options := optionsOf p style
    defaults := ⟨p.get .charset, p.get .collation⟩ }

end Settings

end SchemaModels.Tool
