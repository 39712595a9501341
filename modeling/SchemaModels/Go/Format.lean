import SchemaModels.Go.Format.Align
import SchemaModels.Go.Format.Scan
import SchemaModels.Text.Alphabetic
import SchemaModels.Text.Numeral
import SchemaModels.Text.Numeric

/-!
# The layout of a source text

A small part of what a formatter does: lines are indented by the brackets around them, blank lines
are reduced to one between others, and the fields of a struct are laid out in columns. Lines that
begin inside a raw string or a comment are kept as they are.
-/

namespace SchemaModels.Go

namespace Format

/-! ### Fields -/

def startsIdentifier (c : Char) : Bool := Text.isAlphabetic c || c == '_'

def continuesIdentifier (c : Char) : Bool := startsIdentifier c || Text.isNumeric c

def isIdentifier : Text → Bool
  | [] => false
  | c :: t => startsIdentifier c && t.all continuesIdentifier

def startsComment (t : Text) : Bool := "//".toList.isPrefixOf t

/-- The text up to the first blank, and what is behind it without the blanks at its beginning. -/
def splitBlank (t : Text) : Text × Text :=
  (t.takeWhile (!Text.isBlank ·), Text.trimStart (t.dropWhile (!Text.isBlank ·)))

/-- The comment that ends the line of a field, if there is one. -/
def commentCell (field rest : Text) : Except FormatError.Cause Row :=
  if startsComment rest then .ok [Text.trimEnd rest]
  else if rest = [] then .ok []
  else .error (.afterField rest field)

/-- The cells behind a field's type: a tag, if there is one, and a comment. -/
def tagCells (field : Text) : Text → Except FormatError.Cause Row
  | '\x60' :: t =>
    match t.dropWhile (· ≠ '\x60') with
    | [] => .error .openRawString
    | _ :: rest => do
      let comment ← commentCell field (Text.trimStart rest)
      return ('\x60' :: t.takeWhile (· ≠ '\x60') ++ ['\x60']) :: comment
  | t => commentCell field t

/-- The cells of a field: its name, its type, its tag and its comment. -/
def fieldCells (line : Text) : Except FormatError.Cause Row := do
  let (name, rest) := splitBlank line
  unless isIdentifier name do throw (.fieldName name)
  let (type, rest) := splitBlank rest
  if type = [] ∨ type.head? = some '\x60' ∨ startsComment type then throw (.fieldType name)
  return name :: type :: (← tagCells name rest)

/-! ### Lines -/

/-- A line as it will be laid out. -/
inductive Shape
  | blank
  /-- A line that is kept as it is. -/
  | verbatim (text : Text)
  | code (indent : Nat) (text : Text)
  | field (indent : Nat) (cells : Row)
  deriving DecidableEq, Repr, Inhabited

def Line.isField (l : Line) : Bool :=
  let t := Text.trim l.text
  l.inStruct && !startsComment t && t.head? != some '}'

/-- The shape of a line. A bracket that closes stands as far left as the line that opened it. -/
def Line.shape (l : Line) : Except FormatError Shape :=
  let t := Text.trim l.text
  if l.isVerbatim then .ok (.verbatim l.text)
  else if t = [] then .ok .blank
  else if l.isField then (onLine l.number (fieldCells t)).map (.field l.depth)
  else .ok (.code (if t.head?.any isClosing then l.depth - 1 else l.depth) t)

/-- The cells that take part in columns. A line of another shape has none and so ends a run. -/
def Shape.cells : Shape → Row
  | .field _ cells => cells
  | _ => []

/-- A line's text; nothing for a blank line. -/
def Shape.text (aligned : Text) : Shape → Option Text
  | .blank => none
  | .verbatim t => some t
  | .code n t => some (List.replicate n '\t' ++ t)
  | .field n _ => some (List.replicate n '\t' ++ aligned)

/-- Puts lines together. A run of blank lines between others becomes one; `started` says that a
line has been put before, `pending` that a blank one has to follow it. -/
def putLines : (started pending : Bool) → List (Option Text) → Text
  | _, _, [] => []
  | started, _, none :: ls => putLines started started ls
  | _, pending, some t :: ls =>
    (if pending then ['\n'] else []) ++ t ++ '\n' :: putLines true false ls

def layout (shapes : List Shape) : Text :=
  putLines false false
    (List.zipWith (fun s aligned => s.text aligned) shapes (align (shapes.map Shape.cells)))

end Format

/-- A source text in its canonical layout. -/
def format (source : Text) : Except FormatError Text := do
  let lines ← Format.scan source
  let shapes ← lines.mapM Format.Line.shape
  return Format.layout shapes

/-- The message with the number of the line. -/
def FormatError.message (e : FormatError) : Text :=
  Text.numeral e.line ++ ": " ++ e.cause.message

end SchemaModels.Go
