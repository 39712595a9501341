import SchemaModels.Text.Numeral

/-!
# Column types

A column type is given as the table declares it: widths, lengths and precisions are kept, never
filled in. `declaration` writes a type in the form in which the database reports it.
-/

namespace SchemaModels.Ddl

/-- The types that take one number: a display width, a length or a count of fractional digits. -/
inductive SizedType
  | tinyint | smallint | mediumint | int | bigint
  | char | varchar | text | binary | varbinary | blob
  | time | datetime | timestamp | year | bit
  deriving DecidableEq, Repr, Inhabited

/-- The types that take a precision and a scale. -/
inductive PreciseType
  | float | double | real | decimal | numeric
  deriving DecidableEq, Repr, Inhabited

/-- The types that take nothing. -/
inductive PlainType
  | tinytext | mediumtext | longtext | tinyblob | mediumblob | longblob
  | date | boolean | json
  deriving DecidableEq, Repr, Inhabited

inductive DataType
  | sized (kind : SizedType) (width : Option UInt32)
  | precise (kind : PreciseType) (precision scale : Option UInt16)
  | plain (kind : PlainType)
  | enum (members : List Text)
  | set (members : List Text)
  /-- A type outside the list above, as it was written. -/
  | custom (declaration : Text)
  deriving DecidableEq, Repr, Inhabited

def SizedType.name : SizedType → Text
  | .tinyint => "tinyint" | .smallint => "smallint" | .mediumint => "mediumint" | .int => "int"
  | .bigint => "bigint" | .char => "char" | .varchar => "varchar" | .text => "text"
  | .binary => "binary" | .varbinary => "varbinary" | .blob => "blob" | .time => "time"
  | .datetime => "datetime" | .timestamp => "timestamp" | .year => "year" | .bit => "bit"

def PreciseType.name : PreciseType → Text
  | .float => "float" | .double => "double" | .real => "real" | .decimal => "decimal"
  | .numeric => "numeric"

/-- The reported name; truth values are numbers of one digit. -/
def PlainType.name : PlainType → Text
  | .tinytext => "tinytext" | .mediumtext => "mediumtext" | .longtext => "longtext"
  | .tinyblob => "tinyblob" | .mediumblob => "mediumblob" | .longblob => "longblob"
  | .date => "date" | .boolean => "tinyint(1)" | .json => "json"

namespace DataType

/-- A member of an enumeration between quotes, with each quote in it doubled. -/
def member (m : Text) : Text :=
  '\'' :: m.flatMap (fun c => if c = '\'' then ['\'', '\''] else [c]) ++ "'"

def group (items : List Text) : Text := "(" ++ Text.join "," items ++ ")"

/-- The numbers behind a name; a scale is written only together with a precision. -/
def numbers : Option Nat → Option Nat → Text
  | some p, some s => group [Text.numeral p, Text.numeral s]
  | some p, none => group [Text.numeral p]
  | none, _ => []

/-- The type as the database reports it, without modifiers. -/
def declaration : DataType → Text
  | .sized k w => k.name ++ numbers (w.map UInt32.toNat) none
  | .precise k p s => k.name ++ numbers (p.map UInt16.toNat) (s.map UInt16.toNat)
  | .plain k => k.name
  | .enum ms => "enum" ++ group (ms.map member)
  | .set ms => "set" ++ group (ms.map member)
  | .custom d => Text.lower d

/-- The whole numbers, truth values among them. -/
def isInteger : DataType → Bool
  | .sized k _ => k ∈ [.tinyint, .smallint, .mediumint, .int, .bigint]
  | .plain k => k = .boolean
  | _ => false

end DataType

/-- A type with its modifiers. -/
structure FieldType where
  dataType : DataType
  unsigned : Bool := false
  zerofill : Bool := false
  charset : Option Text := none
  collation : Option Text := none
  deriving DecidableEq, Repr, Inhabited

/-- The type as the database reports it; a number filled with zeros has no sign. -/
def FieldType.declaration (t : FieldType) : Text :=
  t.dataType.declaration ++
    (if t.unsigned || t.zerofill then " unsigned" else "") ++
    (if t.zerofill then " zerofill" else "")

end SchemaModels.Ddl
