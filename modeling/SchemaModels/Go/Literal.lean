import SchemaModels.Text.Numeral

/-!
# String literals

An interpreted string literal stands on one line: quotes, backslashes and control characters are
written as escapes.
-/

namespace SchemaModels.Go

def escapedChar (c : Char) : Text :=
  match c with
  | '"' => "\\\""
  | '\\' => "\\\\"
  | '\n' => "\\n"
  | '\r' => "\\r"
  | '\t' => "\\t"
  | c => if Text.isControl c then "\\u" ++ Text.padded 4 (Text.hexNumeral c.toNat) else [c]

def quoted (t : Text) : Text := '"' :: t.flatMap escapedChar ++ "\""

end SchemaModels.Go
