import SchemaModels.Number.Binary64
import SchemaModels.Text.Numeral

/-!
# Default values

The expressions that a column option holds: literals, calls, and every other expression as its
source text.
-/

namespace SchemaModels.Ddl

inductive Literal
  | integer (n : Int)
  | float (x : Binary64)
  | string (value : Text)
  | blob (bytes : List UInt8)
  | boolean (b : Bool)
  | null
  deriving DecidableEq, Repr, Inhabited

inductive Expr
  | literal (value : Literal)
  /-- A call; a name alone, such as `CURRENT_TIMESTAMP`, is a call without arguments. -/
  | call (name : Text) (args : List Expr)
  | raw (source : Text)
  deriving Repr, Inhabited

mutual

def Expr.decEq : (a b : Expr) → Decidable (a = b)
  | .literal v, .literal v' => decidable_of_iff (v = v') (by rw [Expr.literal.injEq])
  | .call n as, .call n' as' =>
    have := Expr.decEqs as as'
    decidable_of_iff (n = n' ∧ as = as') (by rw [Expr.call.injEq])
  | .raw s, .raw s' => decidable_of_iff (s = s') (by rw [Expr.raw.injEq])
  | .literal _, .call .. | .literal _, .raw _ | .call .., .literal _ | .call .., .raw _
  | .raw _, .literal _ | .raw _, .call .. => isFalse nofun

def Expr.decEqs : (as bs : List Expr) → Decidable (as = bs)
  | [], [] => isTrue rfl
  | a :: as, b :: bs =>
    have := Expr.decEq a b
    have := Expr.decEqs as bs
    decidable_of_iff (a = b ∧ as = bs) (by rw [List.cons.injEq])
  | [], _ :: _ | _ :: _, [] => isFalse nofun

end

instance : DecidableEq Expr := Expr.decEq

/-- A byte as two hexadecimal digits in capitals. -/
def hexByte (b : UInt8) : Text := Text.upper (Text.padded 2 (Text.hexNumeral b.toNat))

/-- The literal as the database reports a default: no quotes, truth values as numbers, and nothing
for `NULL`. -/
def Literal.text : Literal → Text
  | .integer n => Text.signedNumeral n
  | .float x => x.write Binary64.plain
  | .string s => s
  | .blob bs => "0x" ++ bs.flatMap hexByte
  | .boolean b => if b then "1" else "0"
  | .null => []

end SchemaModels.Ddl
