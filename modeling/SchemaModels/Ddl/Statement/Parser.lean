import SchemaModels.Ddl.Table.Parser

/-!
# Reading statements

A source text is a run of statements with semicolons between them. Only `CREATE TABLE` is read; of
every other statement nothing but its end is looked for.
-/

namespace SchemaModels.Ddl

namespace Parse

def statementEnd : Parse Unit := do
  unless ← acceptSymbol .semicolon do
    unless ← at? .eof do refuse .statementEnd

def otherStatement : Parse Statement := do
  skipStatement
  let _ ← acceptSymbol .semicolon
  return .other

/-- A statement, from behind the word `CREATE`. -/
def createStatement (defaults : TableDefaults) : Parse Statement := do
  if (← kind) matches .keyword .table | .keyword .temporary then
    let t ← table defaults
    statementEnd
    return .createTable t
  else otherStatement

/-- The next statement with the semicolon behind it. -/
def statement (defaults : TableDefaults) : Parse Statement := do
  if ← acceptKeyword .create then createStatement defaults else otherStatement

def semicolons : Parse Unit := skipWhile (· = .symbol .semicolon)

/-- The next statement, behind any number of semicolons, unless the text ends. -/
def statement? (defaults : TableDefaults) : Parse (Option Statement) := do
  semicolons
  if ← at? .eof then return none else some <$> statement defaults

def statements (defaults : TableDefaults) : Parse (List Statement) := many (statement? defaults)

end Parse

/-- What a given text parses to can be decided. -/
instance decidableEqExcept {ε α : Type} [DecidableEq ε] [DecidableEq α] :
    DecidableEq (Except ε α)
  | .ok a, .ok b => decidable_of_iff (a = b) (Except.ok.injEq a b ▸ Iff.rfl)
  | .error e, .error f => decidable_of_iff (e = f) (Except.error.injEq e f ▸ Iff.rfl)
  | .ok _, .error _ => .isFalse nofun
  | .error _, .ok _ => .isFalse nofun

/-- The statements of a source text, or the first error in a table definition. -/
def parse (defaults : TableDefaults) (source : Text) : Except ParseError (List Statement) :=
  match Parse.statements defaults (.ofSource source) with
  | .ok ss _ => .ok ss
  | .error e _ => .error e

end SchemaModels.Ddl
