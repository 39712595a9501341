import SchemaModels.Ddl.Constraint.Parser

/-!
# Reading table definitions

A table definition is read from behind the word `CREATE`: its name, its columns and constraints in
parentheses, and its options up to the end of the statement.
-/

namespace SchemaModels.Ddl

/-- The charset and collation of tables that declare none. -/
structure TableDefaults where
  charset : Option Text := none
  collation : Option Text := none
  deriving DecidableEq, Repr, Inhabited

def charsetOf (options : List TableOption) : Option Text :=
  (options.filterMap fun
    | .charset n => some n
    | _ => none).getLast?

def collationOf (options : List TableOption) : Option Text :=
  (options.filterMap fun
    | .collate n => some n
    | _ => none).getLast?

/-- An entry between a table's parentheses. -/
inductive TableEntry
  | column (c : Column)
  | constraint (c : Constraint)

def columnsOf (entries : List TableEntry) : List Column :=
  entries.filterMap fun
    | .column c => some c
    | .constraint _ => none

def constraintsOf (entries : List TableEntry) : List Constraint :=
  entries.filterMap fun
    | .constraint c => some c
    | .column _ => none

namespace Parse

/-! ### Options -/

def equals : Parse Unit := do
  let _ ← acceptSymbol .equal

def optionValue : Parse Text := do
  match ← kind with
  | .string s =>
    advance
    return s
  | .integer n =>
    advance
    return Text.numeral n
  | .float x =>
    advance
    return x.write Binary64.plain
  | .symbol .leftParen => rawGroup
  | _ => name .optionValue

/-- The option that a word names, read from behind it. -/
def wordOption (word : Text) : Parse TableOption := do
  let option := Text.upper word
  if option = "PARTITION" then return .other option (← balancedTail)
  equals
  let value ← optionValue
  if option = "ENGINE" ∨ option = "TYPE" then return .engine value
  else return .other option value

/-- One option, or the word `DEFAULT`, which gives none. A comma may stand before it. -/
def tableOption : Parse (Option (List TableOption)) := do
  let _ ← acceptSymbol .comma
  match ← kind with
  | .symbol .semicolon | .eof => return none
  | .keyword .default =>
    advance
    return some []
  | .keyword .character =>
    advance
    expectKeyword .set
    equals
    return some [.charset (← name .charsetName)]
  | .keyword .charset =>
    advance
    equals
    return some [.charset (← name .charsetName)]
  | .keyword .collate =>
    advance
    equals
    return some [.collate (← name .collationName)]
  | .keyword .comment =>
    advance
    equals
    return some [.comment (← string)]
  | .keyword .autoIncrement =>
    advance
    equals
    return some [.autoIncrement (.ofNat (← integer))]
  | .identifier word =>
    advance
    return some [← wordOption word]
  | _ => refuse .tableOption

def tableOptions : Parse (List TableOption) := do
  return (← many tableOption).flatten

/-! ### Definition -/

def ifNotExists : Parse Bool := do
  if ← acceptKeyword .if then
    expectKeyword .not
    expectKeyword .exists
    return true
  else return false

/-- A table's name and, before a dot, that of its schema. -/
def qualifiedName : Parse (Option Text × Text) := do
  let first ← name .tableName
  if ← acceptSymbol .dot then return (some first, ← name .tableName)
  else return (none, first)

def tableEntry : Parse TableEntry := do
  if ← atConstraint then return .constraint (← constraint)
  else return .column (← column)

def table (defaults : TableDefaults) : Parse Table := do
  let temporary ← acceptKeyword .temporary
  expectKeyword .table
  let ifNotExists ← ifNotExists
  let (schema, tableName) ← qualifiedName
  if ← atKeyword .like then fail .likeTable
  let entries ← parenthesized (commaSeparated tableEntry)
  let options ← tableOptions
  return {
    name := tableName
    schema, ifNotExists, temporary, options
    columns := columnsOf entries
    constraints := constraintsOf entries
    charset := Ddl.charsetOf options <|> defaults.charset
    collation := Ddl.collationOf options <|> defaults.collation }

end Parse

end SchemaModels.Ddl
