import SchemaModels.Ddl.DataType
import SchemaModels.Ddl.Group

/-!
# Reading column types

A type is one word, what belongs to it in parentheses, and its modifiers. Every word can stand for
a type: one that the table below does not list is kept as written.
-/

namespace SchemaModels.Ddl

/-- What may follow the word of a type. -/
inductive TypeForm
  | sized (kind : SizedType)
  | precise (kind : PreciseType)
  | plain (kind : PlainType)
  /-- The word `PRECISION` may follow. -/
  | double
  /-- The word `VARYING` makes the length variable. -/
  | character
  | enum
  | set
  deriving DecidableEq, Repr

/-- The words for types, in capitals. -/
def typeWords : List (String × TypeForm) :=
  [("TINYINT", .sized .tinyint), ("INT1", .sized .tinyint),
   ("SMALLINT", .sized .smallint), ("INT2", .sized .smallint),
   ("MEDIUMINT", .sized .mediumint), ("MIDDLEINT", .sized .mediumint),
   ("INT3", .sized .mediumint), ("INT", .sized .int), ("INTEGER", .sized .int),
   ("INT4", .sized .int), ("BIGINT", .sized .bigint), ("INT8", .sized .bigint),
   ("FLOAT", .precise .float), ("DOUBLE", .double), ("REAL", .precise .real),
   ("DECIMAL", .precise .decimal), ("DEC", .precise .decimal), ("FIXED", .precise .decimal),
   ("NUMERIC", .precise .numeric),
   ("CHAR", .character), ("CHARACTER", .character), ("NCHAR", .character),
   ("VARCHAR", .sized .varchar), ("NVARCHAR", .sized .varchar), ("VARCHARACTER", .sized .varchar),
   ("TINYTEXT", .plain .tinytext), ("TEXT", .sized .text), ("MEDIUMTEXT", .plain .mediumtext),
   ("LONGTEXT", .plain .longtext), ("BINARY", .sized .binary), ("VARBINARY", .sized .varbinary),
   ("TINYBLOB", .plain .tinyblob), ("BLOB", .sized .blob), ("MEDIUMBLOB", .plain .mediumblob),
   ("LONGBLOB", .plain .longblob), ("DATE", .plain .date), ("TIME", .sized .time),
   ("DATETIME", .sized .datetime), ("TIMESTAMP", .sized .timestamp), ("YEAR", .sized .year),
   ("BIT", .sized .bit), ("BOOL", .plain .boolean), ("BOOLEAN", .plain .boolean),
   ("JSON", .plain .json), ("ENUM", .enum), ("SET", .set)]

def TypeForm.ofWord? (word : Text) : Option TypeForm :=
  let capitals := Text.upper word
  (typeWords.find? fun e => e.1.toList == capitals).map (·.2)

/-- What a word behind a type adds to it. -/
inductive TypeModifier
  | unsigned
  | zerofill
  | charset (name : Text)
  /-- A word that changes nothing. -/
  | idle

def FieldType.modify (t : FieldType) : TypeModifier → FieldType
  | .unsigned => { t with unsigned := true }
  | .zerofill => { t with zerofill := true }
  | .charset n => { t with charset := some n }
  | .idle => t

namespace Parse

/-- An integer below a limit. -/
def integerBelow (limit : Nat) (tooLarge : ParseError.Cause) : Parse Nat := do
  match ← kind with
  | .integer n =>
    if n < limit then
      advance
      return n
    else fail tooLarge
  | _ => refuse .integer

def length? : Parse (Option UInt32) := do
  if ← atSymbol .leftParen then
    return some (.ofNat (← parenthesized (integerBelow (2 ^ 32) .lengthTooLarge)))
  else return none

def precisionAndScale : Parse (Option UInt16 × Option UInt16) := do
  if ← atSymbol .leftParen then
    parenthesized do
      let precision ← integerBelow (2 ^ 16) .precisionTooLarge
      if ← acceptSymbol .comma then
        let scale ← integerBelow (2 ^ 16) .scaleTooLarge
        return (some (.ofNat precision), some (.ofNat scale))
      else return (some (.ofNat precision), none)
  else return (none, none)

def members : Parse (List Text) := parenthesized (commaSeparated string)

/-- What follows the word of a type. -/
def typeOfForm : TypeForm → Parse DataType
  | .sized k => return .sized k (← length?)
  | .precise k => do
    let (precision, scale) ← precisionAndScale
    return .precise k precision scale
  | .plain k => return .plain k
  | .double => do
    let _ ← acceptWord ["PRECISION"]
    let (precision, scale) ← precisionAndScale
    return .precise .double precision scale
  | .character => do
    let varying ← acceptWord ["VARYING"]
    return .sized (if varying then .varchar else .char) (← length?)
  | .enum => return .enum (← members)
  | .set => return .set (← members)

def dataType : Parse DataType := do
  let word ← name .dataType
  match TypeForm.ofWord? word with
  | some form => typeOfForm form
  | none =>
    if ← atSymbol .leftParen then return .custom (word ++ (← rawGroup))
    else return .custom word

def typeModifier : Parse (Option TypeModifier) := do
  match ← kind with
  | .keyword .unsigned =>
    advance
    return some .unsigned
  | .keyword .zerofill =>
    advance
    return some .zerofill
  | .keyword .character =>
    advance
    expectKeyword .set
    return some (.charset (← name .charsetName))
  | .keyword .charset =>
    advance
    return some (.charset (← name .charsetName))
  | other =>
    if isWord ["SIGNED", "BINARY"] other then
      advance
      return some .idle
    else return none

def fieldType : Parse FieldType := do
  let t ← dataType
  let modifiers ← many typeModifier
  return modifiers.foldl .modify ⟨t, false, false, none, none⟩

end Parse

end SchemaModels.Ddl
