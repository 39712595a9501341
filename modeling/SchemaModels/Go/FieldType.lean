import SchemaModels.Ddl.DataType
import SchemaModels.Model.Options

/-!
# Types of fields

The Go type of a column follows from the class of its declared type, from how `NULL` is
represented, and, for whole numbers, from whether the sign is looked at. Some declared types have
no counterpart.
-/

namespace SchemaModels.Go

open Ddl (DataType)
open Model (NullStyle)

/-- The packages that a field type can come from. -/
inductive Package
  | sql | time | decimal
  deriving DecidableEq, Repr, Inhabited

def Package.path : Package → Text
  | .sql => "database/sql"
  | .time => "time"
  | .decimal => "github.com/shopspring/decimal"

/-- The name that qualifies a type from the package: the last part of its path. -/
def Package.name : Package → Text
  | .sql => "sql"
  | .time => "time"
  | .decimal => "decimal"

structure FieldType where
  isPointer : Bool := false
  package : Option Package := none
  name : Text
  deriving DecidableEq, Repr, Inhabited

/-- The type as it stands in a source text. -/
def FieldType.text (t : FieldType) : Text :=
  (if t.isPointer then "*" else "") ++
    (match t.package with
      | some p => p.name ++ "."
      | none => []) ++
    t.name

/-- The declared types that share a counterpart. -/
inductive TypeClass
  | int | bigInt | float | decimal | text | time
  deriving DecidableEq, Repr, Inhabited

def classOf : DataType → Option TypeClass
  | .sized k _ => match k with
    | .tinyint | .smallint | .mediumint | .int => some .int
    | .bigint => some .bigInt
    | .char | .varchar | .text | .binary | .varbinary | .blob => some .text
    | .datetime | .timestamp => some .time
    | .time | .year | .bit => none
  | .precise k _ _ => match k with
    | .float | .double | .real => some .float
    | .decimal | .numeric => some .decimal
  | .plain k => match k with
    | .boolean => some .int
    | .date => some .time
    | .tinytext | .mediumtext | .longtext | .tinyblob | .mediumblob | .longblob | .json =>
      some .text
  | .enum _ | .set _ | .custom _ => none

namespace TypeClass

/-- The name of the wrapper that can hold `NULL`. -/
def wrapper : TypeClass → Text
  | .int => "NullInt32"
  | .bigInt => "NullInt64"
  | .float | .decimal => "NullFloat64"
  | .text => "NullString"
  | .time => "NullTime"

def plain (unsigned : Bool) : TypeClass → FieldType
  | .int => ⟨false, none, if unsigned then "uint32" else "int32"⟩
  | .bigInt => ⟨false, none, if unsigned then "uint64" else "int64"⟩
  | .float => ⟨false, none, "float64"⟩
  | .decimal => ⟨false, some .decimal, "Decimal"⟩
  | .text => ⟨false, none, "string"⟩
  | .time => ⟨false, some .time, "Time"⟩

end TypeClass

/-- The type of a column's field; a wrapper looks the same with and without sign. -/
def fieldType? (t : Ddl.FieldType) (style : NullStyle) (judgeUnsigned : Bool) :
    Option FieldType :=
  (classOf t.dataType).map fun c =>
    let plain := c.plain (judgeUnsigned && (t.unsigned || t.zerofill))
    match style with
    | .wrapped => ⟨false, some .sql, c.wrapper⟩
    | .pointer => { plain with isPointer := true }
    | .disabled => plain

end SchemaModels.Go
