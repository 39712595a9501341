import SchemaModels.Ddl.Span
import SchemaModels.Number.Binary64
import SchemaModels.Text.Quoted

/-!
# Tokens of table definitions

Keywords are the words that the grammar of table definitions turns on; names of types and of table
options are ordinary identifiers, because most of them may also name a column. A lexical fault is a
token of its own kind, so a stream of tokens always reaches the end of its source.
-/

namespace SchemaModels.Ddl

inductive Keyword
  | create | table | temporary | «if» | not | «exists» | like
  | null | default | autoIncrement | comment | on | update | delete | collate | character | charset
  | set | unsigned | zerofill | generated | always | as | virtual | stored
  | primary | key | unique | index | fulltext | spatial | constraint | foreign | references | check
  | true | false
  deriving DecidableEq, Repr, Inhabited

namespace Keyword

/-- Every keyword with its spelling in capitals and its name in diagnostics. -/
def spellings : List (Keyword × String × String) :=
  [(.create, "CREATE", "Create"), (.table, "TABLE", "Table"),
   (.temporary, "TEMPORARY", "Temporary"), (.«if», "IF", "If"), (.not, "NOT", "Not"),
   (.«exists», "EXISTS", "Exists"), (.like, "LIKE", "Like"), (.null, "NULL", "Null"),
   (.default, "DEFAULT", "Default"), (.autoIncrement, "AUTO_INCREMENT", "AutoIncrement"),
   (.comment, "COMMENT", "Comment"), (.on, "ON", "On"), (.update, "UPDATE", "Update"),
   (.delete, "DELETE", "Delete"), (.collate, "COLLATE", "Collate"),
   (.character, "CHARACTER", "Character"), (.charset, "CHARSET", "Charset"), (.set, "SET", "Set"),
   (.unsigned, "UNSIGNED", "Unsigned"), (.zerofill, "ZEROFILL", "Zerofill"),
   (.generated, "GENERATED", "Generated"), (.always, "ALWAYS", "Always"), (.as, "AS", "As"),
   (.virtual, "VIRTUAL", "Virtual"), (.stored, "STORED", "Stored"),
   (.primary, "PRIMARY", "Primary"), (.key, "KEY", "Key"), (.unique, "UNIQUE", "Unique"),
   (.index, "INDEX", "Index"), (.fulltext, "FULLTEXT", "Fulltext"),
   (.spatial, "SPATIAL", "Spatial"), (.constraint, "CONSTRAINT", "Constraint"),
   (.foreign, "FOREIGN", "Foreign"), (.references, "REFERENCES", "References"),
   (.check, "CHECK", "Check"), (.true, "TRUE", "True"), (.false, "FALSE", "False")]

def entry (k : Keyword) : Keyword × String × String :=
  (spellings.find? (·.1 = k)).getD (k, "", "")

/-- The keyword in capitals. -/
def spelling (k : Keyword) : Text := k.entry.2.1

/-- The keyword's name in diagnostics. -/
def label (k : Keyword) : Text := k.entry.2.2

/-- The keyword that a word spells, in any letter case. -/
def ofText? (word : Text) : Option Keyword :=
  let capitals := Text.upper word
  (spellings.find? fun e => e.2.1.toList == capitals).map (·.1)

theorem ofText?_spelling (k : Keyword) : ofText? k.spelling = some k := by
  cases k <;> decide

end Keyword

/-- Whether the keyword begins a key or constraint inside the parentheses of a table. -/
def Keyword.startsConstraint (k : Keyword) : Bool :=
  k ∈ [.primary, .unique, .key, .index, .fulltext, .spatial, .constraint, .foreign, .check]

/-- Operators and punctuation. -/
inductive Symbol
  | plus | minus | star | slash | percent | equal | notEqual | less | lessEqual | greater
  | greaterEqual | concat | bitAnd | bitOr | bitNot
  | leftParen | rightParen | comma | semicolon | dot | colon | question | at
  deriving DecidableEq, Repr, Inhabited

/-- A symbol's name in diagnostics. -/
def Symbol.label : Symbol → Text
  | .plus => "Plus" | .minus => "Minus" | .star => "Star" | .slash => "Slash"
  | .percent => "Percent" | .equal => "Eq" | .notEqual => "NotEq" | .less => "Lt"
  | .lessEqual => "LtEq" | .greater => "Gt" | .greaterEqual => "GtEq" | .concat => "Concat"
  | .bitAnd => "BitAnd" | .bitOr => "BitOr" | .bitNot => "BitNot" | .leftParen => "LeftParen"
  | .rightParen => "RightParen" | .comma => "Comma" | .semicolon => "Semicolon" | .dot => "Dot"
  | .colon => "Colon" | .question => "Question" | .at => "At"

/-- What can be wrong with a piece of text that should be a token. -/
inductive LexicalFault
  | openComment
  | openName
  | openString
  | openBlob
  | blobCharacter
  | oddBlob
  | malformedNumber
  | integerRange
  | character (c : Char)
  deriving DecidableEq, Repr, Inhabited

def LexicalFault.message : LexicalFault → Text
  | .openComment => "Unterminated block comment"
  | .openName => "Unterminated quoted identifier"
  | .openString => "Unterminated string literal"
  | .openBlob => "Unterminated blob literal"
  | .blobCharacter => "Invalid character in blob literal"
  | .oddBlob => "Odd number of hex digits in blob literal"
  | .malformedNumber => "Invalid float: invalid float literal"
  | .integerRange => "Invalid integer: number too large to fit in target type"
  | .character c => "Unexpected character: " ++ [c]

inductive TokenKind
  | integer (n : Nat)
  | float (x : Binary64)
  | string (value : Text)
  | blob (bytes : List UInt8)
  | identifier (name : Text)
  | keyword (k : Keyword)
  | symbol (s : Symbol)
  | fault (f : LexicalFault)
  | eof
  deriving DecidableEq, Repr, Inhabited

/-- A token as a diagnostic shows it. -/
def TokenKind.diagnostic : TokenKind → Text
  | .integer n => "Integer(" ++ Text.numeral n ++ ")"
  | .float x => "Float(" ++ x.write Binary64.diagnostic ++ ")"
  | .string v => "String(" ++ Text.quoted v ++ ")"
  | .blob bs => "Blob([" ++ Text.join ", " (bs.map fun b => Text.numeral b.toNat) ++ "])"
  | .identifier n => "Identifier(" ++ Text.quoted n ++ ")"
  | .keyword k => "Keyword(" ++ k.label ++ ")"
  | .symbol s => s.label
  | .fault f => "Error(" ++ Text.quoted f.message ++ ")"
  | .eof => "Eof"

structure Token where
  kind : TokenKind
  span : Span
  deriving DecidableEq, Repr, Inhabited

end SchemaModels.Ddl
