import SchemaModels.Text.Basic

/-!
# Scanning a source text

The lines of a source text with what holds where each of them begins: how many brackets are open,
whether the innermost one is the body of a struct, and whether the line begins inside a raw string
or a comment. A text whose literals or brackets do not end as they should is refused.
-/

namespace SchemaModels.Go

/-- What can be wrong with a source text. -/
inductive FormatError.Cause
  | mismatch (expected found : Char)
  | unexpectedBracket (found : Char)
  | openString
  | openRune
  | openRawString
  | openComment
  | openBracket (expected : Char)
  | fieldName (found : Text)
  | fieldType (field : Text)
  | afterField (rest field : Text)
  deriving DecidableEq, Repr, Inhabited

structure FormatError where
  line : Nat
  cause : FormatError.Cause
  deriving DecidableEq, Repr, Inhabited

def FormatError.Cause.message : FormatError.Cause → Text
  | .mismatch e f => "expected '" ++ [e] ++ "', found '" ++ [f] ++ "'"
  | .unexpectedBracket f => "unexpected '" ++ [f] ++ "'"
  | .openString => "string literal not terminated"
  | .openRune => "rune literal not terminated"
  | .openRawString => "raw string literal not terminated"
  | .openComment => "comment not terminated"
  | .openBracket e => "expected '" ++ [e] ++ "', found 'EOF'"
  | .fieldName f => "expected field name, found '" ++ f ++ "'"
  | .fieldType f => "expected type for field '" ++ f ++ "'"
  | .afterField r f => "unexpected '" ++ r ++ "' after field '" ++ f ++ "'"

namespace Format

/-! ### The state between two characters -/

/-- The quotes of literals that end on their line: strings and runes. -/
inductive Quote
  | double | single
  deriving DecidableEq, Repr, Inhabited

def Quote.char : Quote → Char
  | .double => '"'
  | .single => '\''

inductive Mode
  | code
  /-- Inside a literal; `escaped` says that a backslash came last. -/
  | literal (q : Quote) (escaped : Bool)
  | rawString
  | lineComment
  /-- Before the asterisk that opens a comment. -/
  | opening
  | blockComment
  /-- Before the slash that closes a comment. -/
  | closing
  deriving DecidableEq, Repr, Inhabited

inductive Bracket
  | round | square | curly
  deriving DecidableEq, Repr, Inhabited

def Bracket.closing : Bracket → Char
  | .round => ')'
  | .square => ']'
  | .curly => '}'

def Bracket.opened? (c : Char) : Option Bracket :=
  if c = '(' then some .round else if c = '[' then some .square
  else if c = '{' then some .curly else none

def isClosing (c : Char) : Bool := c == ')' || c == ']' || c == '}'

/-- An open bracket. -/
structure Open where
  bracket : Bracket
  /-- Whether it opens the body of a struct. -/
  isStruct : Bool
  deriving DecidableEq, Repr, Inhabited

structure State where
  mode : Mode
  /-- The open brackets, the innermost one first. -/
  stack : List Open
  deriving DecidableEq, Repr, Inhabited

def State.start : State := ⟨.code, []⟩

/-- Whether the line up to here, given backwards, ends in the word `struct`. -/
def endsInStruct (before : Text) : Bool :=
  "tcurts".toList.isPrefixOf (before.dropWhile Text.isBlank)

/-- What a character in code does to the open brackets. -/
def bracket (before : Text) (stack : List Open) (c : Char) :
    Except FormatError.Cause (List Open) :=
  match Bracket.opened? c with
  | some b => .ok (⟨b, b = .curly && endsInStruct before⟩ :: stack)
  | none =>
    if isClosing c then
      match stack with
      | [] => .error (.unexpectedBracket c)
      | o :: os => if o.bracket.closing = c then .ok os else .error (.mismatch o.bracket.closing c)
    else .ok stack

/-- The mode behind a character of code that is followed by `next` on its line. -/
def codeMode (c : Char) (next : Option Char) : Mode :=
  if c = '"' then .literal .double false
  else if c = '\'' then .literal .single false
  else if c = '\x60' then .rawString
  else if c = '/' ∧ next = some '/' then .lineComment
  else if c = '/' ∧ next = some '*' then .opening
  else .code

/-- The mode behind a character. -/
def Mode.after (c : Char) (next : Option Char) : Mode → Mode
  | .code => codeMode c next
  | .literal q true => .literal q false
  | .literal q false =>
    if c = '\\' then .literal q true else if c = q.char then .code else .literal q false
  | .rawString => if c = '\x60' then .code else .rawString
  | .lineComment => .lineComment
  | .opening => .blockComment
  | .blockComment => if c = '*' ∧ next = some '/' then .closing else .blockComment
  | .closing => .code

/-- The state behind a character, given the line before it, the last character first, and the
character that follows on the line. Brackets count in code only. -/
def step (before : Text) (s : State) (c : Char) (next : Option Char) :
    Except FormatError.Cause State := do
  let stack ← if s.mode = .code then bracket before s.stack c else .ok s.stack
  return ⟨s.mode.after c next, stack⟩

/-- Scans the characters of a line, of which `before` has been read, the last character first. -/
def scanLine (before : Text) : State → Text → Except FormatError.Cause State
  | s, [] => .ok s
  | s, c :: t => do scanLine (c :: before) (← step before s c t.head?) t

/-- What the end of a line does to the state. -/
def endLine (s : State) : Except FormatError.Cause State :=
  match s.mode with
  | .literal .double _ => .error .openString
  | .literal .single _ => .error .openRune
  | .lineComment => .ok ⟨.code, s.stack⟩
  | _ => .ok s

/-! ### Lines -/

structure Line where
  number : Nat
  text : Text
  /-- The number of brackets open where the line begins. -/
  depth : Nat
  /-- Whether the line begins inside a raw string or a block comment. -/
  isVerbatim : Bool
  /-- Whether the line begins directly inside the body of a struct. -/
  inStruct : Bool
  deriving DecidableEq, Repr, Inhabited

def Line.at (s : State) (number : Nat) (text : Text) : Line :=
  { number, text
    depth := s.stack.length
    isVerbatim := s.mode = .rawString || s.mode = .blockComment
    inStruct := s.stack.head?.any (·.isStruct) }

/-- Gives a cause the number of its line. -/
def onLine (number : Nat) : Except FormatError.Cause α → Except FormatError α :=
  Except.mapError (⟨number, ·⟩)

/-- The lines of a text from a state and a line number on, and the state behind the last one. -/
def scanLines : State → Nat → List Text → Except FormatError (List Line × State)
  | s, _, [] => .ok ([], s)
  | s, n, t :: ts => do
    let s' ← onLine n (scanLine [] s t >>= endLine)
    let (lines, final) ← scanLines s' (n + 1) ts
    return (Line.at s n t :: lines, final)

/-- A text may not end inside a raw string, a comment or a bracket. -/
def endText (s : State) : Except FormatError.Cause Unit :=
  match s.mode, s.stack with
  | .rawString, _ => .error .openRawString
  | .blockComment, _ => .error .openComment
  | _, o :: _ => .error (.openBracket o.bracket.closing)
  | _, [] => .ok ()

def scan (source : Text) : Except FormatError (List Line) := do
  let (lines, final) ← scanLines .start 1 (Text.splitOn '\n' source)
  onLine lines.length (endText final)
  return lines

end Format

end SchemaModels.Go
