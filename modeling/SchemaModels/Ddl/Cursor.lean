import SchemaModels.Ddl.ParseError
import SchemaModels.Ddl.Token.Lexer

/-!
# Reading tokens

A cursor stands between the tokens already read and those ahead. The readers of grammar are actions
on a cursor; one that fails leaves the cursor at the token where it failed. `advance` is the only
step forward, and at the end of the text it stays there.
-/

namespace SchemaModels.Ddl

structure Cursor where
  source : Text
  /-- The current token and those behind it, without the end of the text. -/
  ahead : List Token
  deriving DecidableEq, Repr, Inhabited

namespace Cursor

def ofSource (source : Text) : Cursor := ⟨source, lexemes source⟩

def current (c : Cursor) : Token := c.ahead.headD (endToken c.source)

/-- The token behind the current one. -/
def following (c : Cursor) : Token := c.ahead.tail.headD (endToken c.source)

def advance (c : Cursor) : Cursor := ⟨c.source, c.ahead.tail⟩

/-- Moves over some tokens. -/
def drop : Nat → Cursor → Cursor
  | 0, c => c
  | n + 1, c => drop n c.advance

/-- The source text from the current token up to the last one before another cursor. -/
def textTo (c d : Cursor) : Text :=
  let read := c.ahead.take (c.ahead.length - d.ahead.length)
  match read.head?, read.getLast? with
  | some first, some last => (⟨first.span.start, last.span.stop⟩ : Span).slice c.source
  | _, _ => []

theorem ahead_advance (c : Cursor) : c.advance.ahead = c.ahead.tail := rfl

theorem ahead_drop (n : Nat) (c : Cursor) : (c.drop n).ahead = c.ahead.drop n := by
  induction n generalizing c with
  | zero => rfl
  | succ n ih => rw [drop, ih, ahead_advance, List.drop_tail]

theorem length_advance_lt {c : Cursor} (h : c.current.kind ≠ .eof) :
    c.advance.ahead.length < c.ahead.length := by
  obtain ⟨source, _ | ⟨t, ts⟩⟩ := c
  · exact absurd rfl h
  · simp [advance]

end Cursor

abbrev Parse := EStateM ParseError Cursor

namespace Parse

/-! ### One token -/

def kind : Parse TokenKind := fun c => .ok c.current.kind c

def advance : Parse Unit := fun c => .ok () c.advance

/-- Moves over some tokens. -/
def skip (n : Nat) : Parse Unit := fun c => .ok () (c.drop n)

/-- Moves over tokens of some kinds. -/
def skipWhile (p : TokenKind → Bool) : Parse Unit := fun c =>
  .ok () (c.drop (c.ahead.takeWhile fun t => p t.kind).length)

/-- Fails at the current token, of which something else was expected. -/
def refuse (expected : Expected) : Parse α := fun c =>
  .error ⟨.unexpected expected c.current.kind, c.current.span⟩ c

/-- Fails at the current token for another reason. -/
def fail (cause : ParseError.Cause) : Parse α := fun c => .error ⟨cause, c.current.span⟩ c

/-- What is read, and its source text. -/
def withSource (p : Parse α) : Parse (α × Text) := fun c =>
  match p c with
  | .ok a d => .ok (a, c.textTo d) d
  | .error e d => .error e d

/-- The source text of what is read. -/
def sourceOf (p : Parse α) : Parse Text := do return (← withSource p).2

def at? (k : TokenKind) : Parse Bool := do return (← kind) = k

/-- Reads a token if it is the current one. -/
def accept (k : TokenKind) : Parse Bool := do
  let present ← at? k
  if present then advance
  return present

def atKeyword (k : Keyword) : Parse Bool := at? (.keyword k)

def acceptKeyword (k : Keyword) : Parse Bool := accept (.keyword k)

def expectKeyword (k : Keyword) : Parse Unit := do
  unless ← acceptKeyword k do refuse (.keyword k)

def atSymbol (s : Symbol) : Parse Bool := at? (.symbol s)

def acceptSymbol (s : Symbol) : Parse Bool := accept (.symbol s)

def expectSymbol (s : Symbol) : Parse Unit := do
  unless ← acceptSymbol s do refuse (.symbol s)

/-! ### Words

Many words of the grammar are no keywords, because they are ordinary names elsewhere. -/

/-- Whether a token is one of the given words, in any letter case. -/
def isWord (words : List Text) : TokenKind → Bool
  | .identifier w => words.any fun v => decide (Text.SameWord w v)
  | _ => false

def atWord (words : List Text) : Parse Bool := do return isWord words (← kind)

/-- Whether the token behind the current one is one of the given words. -/
def beforeWord (words : List Text) : Parse Bool := fun c => .ok (isWord words c.following.kind) c

def acceptWord (words : List Text) : Parse Bool := do
  let present ← atWord words
  if present then advance
  return present

/-- The current token as a name: an identifier, or a keyword as it is written. -/
def name? : Parse (Option Text) := fun c =>
  .ok (match c.current.kind with
    | .identifier n => some n
    | .keyword _ => some (c.current.span.slice c.source)
    | _ => none) c

def name (expected : Expected) : Parse Text := do
  match ← name? with
  | some n =>
    advance
    return n
  | none => refuse expected

/-! ### Literals -/

def string : Parse Text := do
  match ← kind with
  | .string s =>
    advance
    return s
  | _ => refuse .stringLiteral

def integer : Parse Nat := do
  match ← kind with
  | .integer n =>
    advance
    return n
  | _ => refuse .integer

/-! ### Repetition -/

/-- Repeats a step until it declines. A step that reads nothing is the last one. -/
def many (step : Parse (Option α)) : Parse (List α) := fun c =>
  match step c with
  | .error e d => .error e d
  | .ok none d => .ok [] d
  | .ok (some a) d =>
    if d.ahead.length < c.ahead.length then
      match many step d with
      | .error e d => .error e d
      | .ok as d => .ok (a :: as) d
    else .ok [a] d
termination_by c => c.ahead.length

/-- One item or more, with commas between them. -/
def commaSeparated (item : Parse α) : Parse (List α) := do
  let first ← item
  let others ← many do
    if ← acceptSymbol .comma then some <$> item else return none
  return first :: others

def parenthesized (content : Parse α) : Parse α := do
  expectSymbol .leftParen
  let a ← content
  expectSymbol .rightParen
  return a

end Parse

end SchemaModels.Ddl
