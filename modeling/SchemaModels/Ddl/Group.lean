import SchemaModels.Ddl.Cursor

/-!
# Tokens that are kept as text

Some clauses are captured and not read: a group in parentheses, the rest of a partition clause, a
statement that defines no table. Only parenthesis tokens count for where a group ends; those inside
strings, quoted names and comments are part of other tokens.
-/

namespace SchemaModels.Ddl

/-- The number of tokens up to and with the parenthesis that closes the last open one, where
`depth` others are open. -/
def groupLength : (depth : Nat) → List Token → Option Nat
  | _, [] => none
  | depth, t :: ts =>
    match t.kind, depth with
    | .symbol .leftParen, d => (groupLength (d + 1) ts).map (· + 1)
    | .symbol .rightParen, 0 => some 1
    | .symbol .rightParen, d + 1 => (groupLength d ts).map (· + 1)
    | _, d => (groupLength d ts).map (· + 1)

theorem groupLength_pos {depth : Nat} {ts : List Token} {n : Nat}
    (h : groupLength depth ts = some n) : 0 < n := by
  cases ts with
  | nil => simp [groupLength] at h
  | cons t ts =>
    simp only [groupLength] at h
    split at h <;> simp only [Option.map_eq_some_iff, Option.some.injEq] at h <;> omega

/-- The number of tokens up to the end of a statement, and what was expected where it ends too
early: its parentheses have to balance, of which `depth` are open. -/
def balancedLength : (depth : Nat) → List Token → Nat × Option Expected
  | 0, [] => (0, none)
  | _ + 1, [] => (0, some .partitionEnd)
  | depth, t :: ts =>
    let after (d : Nat) := (balancedLength d ts).map (· + 1) id
    match t.kind, depth with
    | .symbol .leftParen, d => after (d + 1)
    | .symbol .rightParen, 0 => (0, some .semicolon)
    | .symbol .rightParen, d + 1 => after d
    | .symbol .semicolon, 0 => (0, none)
    | .symbol .semicolon, _ + 1 => (0, some .partitionEnd)
    | .fault _, _ => (0, some .partitionDefinition)
    | _, d => after d

/-- The text of a group without its outer parentheses and the blanks beside them. -/
def inside (group : Text) : Text := Text.trim group.tail.dropLast

namespace Parse

/-- Moves behind the parenthesis that closes a group. -/
def skipGroup : Parse Unit := fun c =>
  match groupLength 0 c.ahead with
  | some n => skip n c
  | none => refuse .groupEnd (c.drop c.ahead.length)

/-- A group in parentheses, as it is written. -/
def rawGroup : Parse Text := sourceOf do
  expectSymbol .leftParen
  skipGroup

/-- Moves to the end of a statement whose parentheses have to balance. -/
def skipBalanced : Parse Unit := fun c =>
  match balancedLength 0 c.ahead with
  | (n, none) => skip n c
  | (n, some expected) => refuse expected (c.drop n)

/-- The rest of a statement, as it is written. -/
def balancedTail : Parse Text := do return Text.trim (← sourceOf skipBalanced)

/-- Whether a token is neither the end of a statement nor a lexical fault. -/
def isPlain : TokenKind → Bool
  | .symbol .semicolon | .fault _ => false
  | _ => true

/-- Moves to the end of a statement; a lexical fault on the way is an error. -/
def skipStatement : Parse Unit := do
  skipWhile isPlain
  if let .fault _ := ← kind then refuse .semicolon

end Parse

end SchemaModels.Ddl
