import SchemaModels.Ddl.Table.Parser

/-!
# The canonical text of a table

A table definition with nothing but columns, primary and unique keys without names, and a comment
can be written in one form: names in backquotes, types as the database reports them, and a space
between every two tokens elsewhere. `canonicalText` writes it, and `kinds` lists the tokens that the
text has.
-/

namespace SchemaModels.Ddl

/-! ### Tables with a canonical text -/

def DataType.IsCanonical : DataType → Prop
  | .sized _ _ => True
  | .precise _ precision scale => scale.isSome → precision.isSome
  | .plain k => k ≠ .boolean
  | .enum ms | .set ms => ms ≠ []
  | .custom _ => False

/-- Integers are those of 64 bits with a sign, apart from the least one. -/
def Literal.IsCanonical : Literal → Prop
  | .integer n => -2 ^ 63 < n ∧ n < 2 ^ 63
  | .string _ | .boolean _ | .null => True
  | .float _ | .blob _ => False

def ColumnOption.IsCanonical : ColumnOption → Prop
  | .primaryKey | .notNull | .null | .autoIncrement | .uniqueKey | .comment _ => True
  | .default (.literal l) => l.IsCanonical
  | _ => False

structure Column.IsCanonical (c : Column) : Prop where
  dataType : c.type.dataType.IsCanonical
  charset : c.type.charset = none
  collation : c.type.collation = none
  options : ∀ o ∈ c.options, o.IsCanonical

structure Constraint.IsCanonical (k : Constraint) : Prop where
  kind : k.kind = .primaryKey ∨ k.kind = .unique
  name : k.name = none
  columns : k.columns ≠ []

structure Table.IsCanonical (t : Table) : Prop where
  columns_ne_nil : t.columns ≠ []
  columns : ∀ c ∈ t.columns, c.IsCanonical
  constraints : ∀ k ∈ t.constraints, k.IsCanonical
  options : t.options = [] ∨ ∃ s, t.options = [.comment s]
  rest_eq : t = { name := t.name, columns := t.columns, constraints := t.constraints,
                  options := t.options }

/-! ### Texts -/

/-- Some text with each of certain characters doubled. -/
def doubled (special : List Char) (t : Text) : Text :=
  t.flatMap fun c => if c ∈ special then [c, c] else [c]

def backquoted (name : Text) : Text := '\x60' :: doubled ['\x60'] name ++ ['\x60']

def quotedString (s : Text) : Text := '\'' :: doubled ['\'', '\\'] s ++ ['\'']

/-- The type as the database reports it, except that backslashes in members are doubled. -/
def DataType.canonicalText : DataType → Text
  | .enum ms => "enum" ++ group (ms.map quotedString)
  | .set ms => "set" ++ group (ms.map quotedString)
  | t => t.declaration

def FieldType.canonicalText (t : FieldType) : Text :=
  t.dataType.canonicalText ++
    (if t.unsigned then ' ' :: "unsigned" else []) ++
    (if t.zerofill then ' ' :: "zerofill" else [])

/-- The sign of a number is a token of its own. -/
def Literal.canonicalText : Literal → Text
  | .integer (.ofNat n) => Text.numeral n
  | .integer (.negSucc n) => "- " ++ Text.numeral (n + 1)
  | .string s => quotedString s
  | .boolean b => if b then "TRUE" else "FALSE"
  | .null => "NULL"
  | .float _ | .blob _ => ""

def ColumnOption.canonicalText : ColumnOption → Text
  | .primaryKey => "PRIMARY KEY"
  | .notNull => "NOT NULL"
  | .null => "NULL"
  | .autoIncrement => "AUTO_INCREMENT"
  | .uniqueKey => "UNIQUE KEY"
  | .default (.literal l) => "DEFAULT " ++ l.canonicalText
  | .comment s => "COMMENT " ++ quotedString s
  | _ => ""

/-- Some texts with a space before each. -/
def spaced (items : List Text) : Text := items.flatMap (' ' :: ·)

def Column.canonicalText (c : Column) : Text :=
  backquoted c.name ++ ' ' :: c.type.canonicalText ++ spaced (c.options.map (·.canonicalText))

/-- Some texts with commas between them, in parentheses. -/
def parenthesizedText (items : List Text) : Text := "( " ++ Text.join " , " items ++ " )"

def Constraint.canonicalText (k : Constraint) : Text :=
  (if k.kind = .primaryKey then "PRIMARY KEY " else "UNIQUE KEY ") ++
    parenthesizedText (k.columns.map backquoted)

def TableOption.canonicalText : TableOption → Text
  | .comment s => "COMMENT = " ++ quotedString s
  | _ => ""

def TableEntry.canonicalText : TableEntry → Text
  | .column c => c.canonicalText
  | .constraint k => k.canonicalText

/-- What stands between the parentheses: the columns, and the constraints behind them. -/
def Table.entries (t : Table) : List TableEntry :=
  t.columns.map .column ++ t.constraints.map .constraint

def Table.canonicalText (t : Table) : Text :=
  "CREATE TABLE " ++ backquoted t.name ++ ' ' ::
    parenthesizedText (t.entries.map (·.canonicalText)) ++ spaced (t.options.map (·.canonicalText))

/-! ### Tokens -/

/-- The tokens of some items with commas between them. -/
def separatedKinds : List (List TokenKind) → List TokenKind
  | [] => []
  | [ks] => ks
  | ks :: items => ks ++ .symbol .comma :: separatedKinds items

def groupKinds (items : List (List TokenKind)) : List TokenKind :=
  .symbol .leftParen :: (separatedKinds items ++ [.symbol .rightParen])

def numberKinds : Option Nat → Option Nat → List TokenKind
  | some p, some s => groupKinds [[.integer p], [.integer s]]
  | some p, none => groupKinds [[.integer p]]
  | none, _ => []

def DataType.kinds : DataType → List TokenKind
  | .sized k w => .identifier k.name :: numberKinds (w.map UInt32.toNat) none
  | .precise k p s =>
    .identifier k.name :: numberKinds (p.map UInt16.toNat) (s.map UInt16.toNat)
  | .plain k => [.identifier k.name]
  | .enum ms => .identifier "enum" :: groupKinds (ms.map fun m => [.string m])
  | .set ms => .keyword .set :: groupKinds (ms.map fun m => [.string m])
  | .custom _ => []

def FieldType.kinds (t : FieldType) : List TokenKind :=
  t.dataType.kinds ++ (if t.unsigned then [.keyword .unsigned] else []) ++
    (if t.zerofill then [.keyword .zerofill] else [])

def Literal.kinds : Literal → List TokenKind
  | .integer (.ofNat n) => [.integer n]
  | .integer (.negSucc n) => [.symbol .minus, .integer (n + 1)]
  | .string s => [.string s]
  | .boolean b => [.keyword (if b then .true else .false)]
  | .null => [.keyword .null]
  | .float _ | .blob _ => []

def ColumnOption.kinds : ColumnOption → List TokenKind
  | .primaryKey => [.keyword .primary, .keyword .key]
  | .notNull => [.keyword .not, .keyword .null]
  | .null => [.keyword .null]
  | .autoIncrement => [.keyword .autoIncrement]
  | .uniqueKey => [.keyword .unique, .keyword .key]
  | .default (.literal l) => .keyword .default :: l.kinds
  | .comment s => [.keyword .comment, .string s]
  | _ => []

def Column.kinds (c : Column) : List TokenKind :=
  .identifier c.name :: (c.type.kinds ++ c.options.flatMap (·.kinds))

def Constraint.kinds (k : Constraint) : List TokenKind :=
  .keyword (if k.kind = .primaryKey then .primary else .unique) :: .keyword .key ::
    groupKinds (k.columns.map fun n => [.identifier n])

def TableOption.kinds : TableOption → List TokenKind
  | .comment s => [.keyword .comment, .symbol .equal, .string s]
  | _ => []

def TableEntry.kinds : TableEntry → List TokenKind
  | .column c => c.kinds
  | .constraint k => k.kinds

def Table.kinds (t : Table) : List TokenKind :=
  .keyword .create :: .keyword .table :: .identifier t.name ::
    (groupKinds (t.entries.map (·.kinds)) ++ t.options.flatMap (·.kinds))

end SchemaModels.Ddl
