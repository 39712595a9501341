import SchemaModels.Ddl.Column.Parser

/-!
# Reading keys and constraints

The entries of a table that are no columns. Of an index only its kind, its name and its columns are
kept.
-/

namespace SchemaModels.Ddl.Parse

/-- One attribute of an index. -/
def indexAttribute : Parse (Option Unit) := do
  if ← acceptWord ["USING"] then
    advance
    return some ()
  else if ← acceptKeyword .comment then
    advance
    return some ()
  else if ← acceptWord ["KEY_BLOCK_SIZE"] then
    let _ ← acceptSymbol .equal
    advance
    return some ()
  else if ← acceptWord ["WITH"] then
    skip 2
    return some ()
  else if ← acceptWord ["VISIBLE", "INVISIBLE"] then
    return some ()
  else return none

def indexAttributes : Parse Unit := do
  let _ ← many indexAttribute

/-- One part of a key: a column, of which a beginning may be meant, or an expression. -/
def keyPart : Parse Text := do
  let isExpr ← atSymbol .leftParen
  let part ← if isExpr then rawGroup else name .keyColumn
  unless isExpr do
    if ← atSymbol .leftParen then
      let _ ← rawGroup
  let _ ← acceptWord ["ASC", "DESC"]
  return part

def keyParts : Parse (List Text) := parenthesized (commaSeparated keyPart)

def keyOrIndex : Parse Unit := do
  unless ← acceptKeyword .key do
    let _ ← acceptKeyword .index

/-- The words for the kind of a constraint other than `CHECK`. -/
def constraintKind : Parse ConstraintKind := do
  match ← kind with
  | .keyword .primary =>
    advance
    expectKeyword .key
    return .primaryKey
  | .keyword .unique =>
    advance
    keyOrIndex
    return .unique
  | .keyword .key | .keyword .index =>
    advance
    return .index
  | .keyword .fulltext | .keyword .spatial =>
    advance
    keyOrIndex
    return .fulltext
  | .keyword .foreign =>
    advance
    expectKeyword .key
    return .foreignKey
  | _ => refuse .constraint

def atConstraint : Parse Bool := do
  match ← kind with
  | .keyword k => return k.startsConstraint
  | _ => return false

/-- The name behind `CONSTRAINT`, where there is one. -/
def constraintName? : Parse (Option Text) := do
  if ← acceptKeyword .constraint then
    if ← atConstraint then return none else return some (← name .constraintName)
  else return none

/-- The name of an index, where there is one; a primary key has none. -/
def indexName? (kind : ConstraintKind) : Parse (Option Text) := do
  if kind = .primaryKey then return none
  if ← atSymbol .leftParen then return none
  if ← atWord ["USING"] then return none
  return some (← name .indexName)

/-- A key or constraint. The name behind `CONSTRAINT` goes before that of the index. -/
def constraint : Parse Constraint := do
  let constraintName ← constraintName?
  if ← atKeyword .check then
    let _ ← check
    return ⟨.check, constraintName, []⟩
  let kind ← constraintKind
  let indexName ← indexName? kind
  indexAttributes
  let columns ← keyParts
  if kind = .foreignKey then
    let _ ← references
  indexAttributes
  return ⟨kind, constraintName <|> indexName, columns⟩

end SchemaModels.Ddl.Parse
