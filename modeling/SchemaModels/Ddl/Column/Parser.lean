import SchemaModels.Ddl.Table
import SchemaModels.Ddl.DataType.Parser
import SchemaModels.Ddl.Expr.Parser

/-!
# Reading columns

A column is a name, a type and a run of options. The run ends at the first token that begins no
option; attributes that say nothing about the data are read and dropped.
-/

namespace SchemaModels.Ddl.Parse

/-- The expression of a generated column. -/
def generated : Parse ColumnOption := do
  expectKeyword .as
  let group ← rawGroup
  let stored ← acceptKeyword .stored
  unless stored do
    let _ ← acceptKeyword .virtual
  return .generated (inside group) stored

/-- A condition, and whether it is enforced, which is dropped. -/
def check : Parse Text := do
  expectKeyword .check
  let group ← rawGroup
  if ← atKeyword .not then
    if ← beforeWord ["ENFORCED"] then skip 2
  else
    let _ ← acceptWord ["ENFORCED"]
  return inside group

/-- What happens to a row when the row that it refers to changes. -/
def referenceAction : Parse Unit := do
  if ← acceptKeyword .set then advance
  else if ← acceptWord ["NO"] then advance
  else if (← name?).isSome then advance
  else refuse .referenceAction

def referenceClause : Parse (Option Unit) := do
  if ← acceptWord ["MATCH"] then
    advance
    return some ()
  else if ← acceptKeyword .on then
    unless ← acceptKeyword .delete do expectKeyword .update
    referenceAction
    return some ()
  else return none

/-- A reference to another table, as it is written. -/
def references : Parse Text := sourceOf do
  expectKeyword .references
  let _ ← name .tableName
  if ← acceptSymbol .dot then
    let _ ← name .tableName
  if ← atSymbol .leftParen then
    let _ ← rawGroup
  many referenceClause

/-- The option that a keyword begins, read from behind it. -/
def optionBehind? : Keyword → Option (Parse ColumnOption)
  | .not => some do
    expectKeyword .null
    return .notNull
  | .null => some (return .null)
  | .default => some (return .default (← expr))
  | .autoIncrement => some (return .autoIncrement)
  | .primary => some do
    expectKeyword .key
    return .primaryKey
  | .key => some (return .primaryKey)
  | .unique => some do
    let _ ← acceptKeyword .key
    return .uniqueKey
  | .comment => some (return .comment (← string))
  | .on => some do
    expectKeyword .update
    return .onUpdate (← expr)
  | .collate => some (return .collate (← name .collationName))
  | .generated => some do
    expectKeyword .always
    generated
  | .constraint => some do
    unless ← atKeyword .check do
      let _ ← name .constraintName
    return .check (← check)
  | _ => none

/-- One option, or an attribute that gives none. -/
def columnOption : Parse (Option (List ColumnOption)) := do
  match ← kind with
  | .keyword .as => return some [← generated]
  | .keyword .check => return some [.check (← check)]
  | .keyword .references => return some [.references (← references)]
  | .keyword k =>
    match optionBehind? k with
    | some option =>
      advance
      return some [← option]
    | none => return none
  | other =>
    if isWord ["VISIBLE", "INVISIBLE"] other then
      advance
      return some []
    else if isWord ["COLUMN_FORMAT", "STORAGE", "SRID"] other then
      skip 2
      return some []
    else return none

/-- The last collation among a column's options. -/
def collationOf (options : List ColumnOption) : Option Text :=
  (options.filterMap fun
    | .collate n => some n
    | _ => none).getLast?

def column : Parse Column := do
  let columnName ← name .columnName
  let type ← fieldType
  let options := (← many columnOption).flatten
  return ⟨columnName, { type with collation := collationOf options }, options⟩

end SchemaModels.Ddl.Parse
