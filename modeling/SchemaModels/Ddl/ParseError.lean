import SchemaModels.Ddl.Token

/-!
# Parse errors

A parse error says what is wrong with the token at its span: mostly that the grammar expected
something else there.
-/

namespace SchemaModels.Ddl

/-- What the grammar can expect of a token. -/
inductive Expected
  | keyword (k : Keyword)
  | symbol (s : Symbol)
  | tableName | columnName | constraintName | indexName | keyColumn | charsetName | collationName
  | dataType | stringLiteral | integer | number | defaultValue
  | constraint | referenceAction | tableOption | optionValue | partitionDefinition
  /-- The parenthesis that closes a group of tokens. -/
  | groupEnd
  /-- The parenthesis that closes a group inside a partition clause. -/
  | partitionEnd
  /-- The end of a statement whose tokens are only skipped. -/
  | semicolon
  | statementEnd
  deriving DecidableEq, Repr, Inhabited

def Expected.text : Expected → Text
  | .keyword k => k.spelling
  | .symbol s => s.label
  | .tableName => "table name"
  | .columnName => "column name"
  | .constraintName => "constraint name"
  | .indexName => "index name"
  | .keyColumn => "key column"
  | .charsetName => "charset name"
  | .collationName => "collation name"
  | .dataType => "data type"
  | .stringLiteral => "string literal"
  | .integer => "integer"
  | .number => "number"
  | .defaultValue => "default value"
  | .constraint => "constraint"
  | .referenceAction => "reference action"
  | .tableOption => "table option"
  | .optionValue => "option value"
  | .partitionDefinition => "partition definition"
  | .groupEnd => ")"
  | .partitionEnd => "')'"
  | .semicolon => "';'"
  | .statementEnd => "; or end of input"

inductive ParseError.Cause
  | unexpected (expected : Expected) (found : TokenKind)
  | likeTable
  | lengthTooLarge
  | precisionTooLarge
  | scaleTooLarge
  deriving DecidableEq, Repr, Inhabited

structure ParseError where
  cause : ParseError.Cause
  span : Span
  deriving DecidableEq, Repr, Inhabited

namespace ParseError

/-- A lexical fault is reported before what was expected in its place. -/
def Cause.message : Cause → Text
  | .unexpected e .eof => "Unexpected end of input: expected " ++ e.text
  | .unexpected e (.fault f) => f.message ++ " (expected " ++ e.text ++ ")"
  | .unexpected e found =>
    "Unexpected token: expected " ++ e.text ++ ", found " ++ found.diagnostic
  | .likeTable => "CREATE TABLE ... LIKE is not supported"
  | .lengthTooLarge => "Length too large"
  | .precisionTooLarge => "Precision too large"
  | .scaleTooLarge => "Scale too large"

def message (e : ParseError) : Text := e.cause.message

def expected? (e : ParseError) : Option Text :=
  match e.cause with
  | .unexpected x _ => some x.text
  | _ => none

def found? (e : ParseError) : Option TokenKind :=
  match e.cause with
  | .unexpected _ f => some f
  | _ => none

/-- The message with the byte offsets of the token. -/
def report (e : ParseError) : Text :=
  e.message ++ " at position " ++ Text.numeral e.span.start ++ ".." ++ Text.numeral e.span.stop

end ParseError

end SchemaModels.Ddl
