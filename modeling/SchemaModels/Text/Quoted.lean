import SchemaModels.Text.Invisible
import SchemaModels.Text.Numeral

/-!
# Quoted texts in diagnostics

A diagnostic shows a text between double quotes on one line: quotes, backslashes and the usual
control characters have a short escape, every other character that cannot be seen is given by its
number.
-/

namespace SchemaModels.Text

def escapedChar (c : Char) : Text :=
  match c with
  | '\x00' => "\\0"
  | '\t' => "\\t"
  | '\r' => "\\r"
  | '\n' => "\\n"
  | '\\' => "\\\\"
  | '"' => "\\\""
  | c => if isInvisible c then "\\u\x7b" ++ hexNumeral c.toNat ++ "\x7d" else [c]

def quoted (t : Text) : Text := '"' :: t.flatMap escapedChar ++ "\""

end SchemaModels.Text
