import SchemaModels.Text.Numeral

/-!
# Double precision numbers and their decimal texts

Fractional literals denote the double nearest to them. Every step is exact arithmetic on natural
numbers: a decimal is rounded to a double (an exact half goes to the even neighbour), and a double
is written with the fewest digits that read back as it. `Layout` is the one record in which the two
written forms differ.
-/

namespace SchemaModels

/-- A number `± mantissa · 2 ^ exponent`, an infinity, or no number at all. -/
inductive Binary64
  | finite (negative : Bool) (mantissa : Nat) (exponent : Int)
  | infinite (negative : Bool)
  | nan
  deriving DecidableEq, Repr, Inhabited

namespace Binary64

def neg : Binary64 → Binary64
  | finite s m e => finite (!s) m e
  | infinite s => infinite (!s)
  | nan => nan

theorem neg_neg (x : Binary64) : x.neg.neg = x := by
  cases x <;> simp [neg]

/-! ### From a decimal -/

/-- The natural number nearest to a quotient; an exact half goes to the even neighbour. -/
def roundDiv (num den : Nat) : Nat :=
  let q := num / den
  let r := num % den
  if den < 2 * r ∨ (2 * r = den ∧ q % 2 = 1) then q + 1 else q

/-- `num / den` over a power of two, as a quotient of natural numbers. -/
def scaleDown (num den : Nat) (exponent : Int) : Nat × Nat :=
  (num * 2 ^ (-exponent).toNat, den * 2 ^ exponent.toNat)

/-- The exponent that gives a positive quotient a mantissa of 53 bits, or the least exponent where
the quotient is too small for that. -/
def exponentFor (num den : Nat) : Int :=
  let guess : Int := (num.log2 : Int) - den.log2 - 52
  let (n, d) := scaleDown num den guess
  max (if n / d < 2 ^ 52 then guess - 1 else guess) (-1074)

/-- The double nearest to a positive quotient. -/
def ofQuotient (negative : Bool) (num den : Nat) : Binary64 :=
  let e := exponentFor num den
  let (n, d) := scaleDown num den e
  let m := roundDiv n d
  let (m, e) := if m = 2 ^ 53 then (2 ^ 52, e + 1) else (m, e)
  if 971 < e then infinite negative else finite negative m e

/-- The double nearest to `digits · 10 ^ exponent`. Exponents far out of range are settled by the
number of digits alone. -/
def ofDecimal (negative : Bool) (digits : Nat) (exponent : Int) : Binary64 :=
  let magnitude := (Text.numeral digits).length + exponent
  if digits = 0 ∨ magnitude < -330 then finite negative 0 (-1074)
  else if 310 < magnitude then infinite negative
  else ofQuotient negative (digits * 10 ^ exponent.toNat) (10 ^ (-exponent).toNat)

/-! ### Products -/

/-- The double nearest to a product. -/
def mul : Binary64 → Binary64 → Binary64
  | finite s m e, finite t n f =>
    let k := e + f
    if m * n = 0 then finite (s ^^ t) 0 (-1074)
    else ofQuotient (s ^^ t) (m * n * 2 ^ k.toNat) (2 ^ (-k).toNat)
  | infinite s, infinite t => infinite (s ^^ t)
  | finite s m _, infinite t | infinite s, finite t m _ =>
    if m = 0 then nan else infinite (s ^^ t)
  | nan, _ | _, nan => nan

theorem mul_comm (x y : Binary64) : x.mul y = y.mul x := by
  cases x <;> cases y <;> simp [mul, Nat.mul_comm, Int.add_comm, Bool.xor_comm]

/-! ### Reading -/

/-- The signed whole number after the exponent mark: at least one digit, nothing behind. -/
def readExponent? (t : Text) : Option Int :=
  let (negative, digits) := match t with
    | '-' :: ds => (true, ds)
    | '+' :: ds => (false, ds)
    | ds => (false, ds)
  if digits.isEmpty || !digits.all Char.isDigit then none
  else some (if negative then -(Text.value digits : Int) else Text.value digits)

/-- An unsigned number: digits with an optional point among or around them, at least one of them,
then an optional exponent. -/
def readUnsigned? (negative : Bool) (t : Text) : Option Binary64 :=
  let whole := t.takeWhile Char.isDigit
  let (fraction, rest) := match t.dropWhile Char.isDigit with
    | '.' :: r => (r.takeWhile Char.isDigit, r.dropWhile Char.isDigit)
    | r => ([], r)
  let digits := Text.value (whole ++ fraction)
  if whole.isEmpty && fraction.isEmpty then none
  else match rest with
    | [] => some (ofDecimal negative digits (-fraction.length))
    | c :: r =>
      if c = 'e' ∨ c = 'E' then
        (readExponent? r).map fun e => ofDecimal negative digits (e - fraction.length)
      else none

/-- Reads a number: an optional sign, then digits, or a word for an infinity or for no number. -/
def ofText? (t : Text) : Option Binary64 :=
  let (negative, body) := match t with
    | '-' :: r => (true, r)
    | '+' :: r => (false, r)
    | r => (false, r)
  match readUnsigned? negative body with
  | some x => some x
  | none =>
    let word := Text.lower body
    if word = "inf" ∨ word = "infinity" then some (infinite negative)
    else if word = "nan" then some nan
    else none

/-! ### The fewest digits -/

/-- The reals that round to a finite positive double, in quarters of its last place: the double
itself, and the lower and upper end. Below a power of two the gap is half as wide. -/
structure Neighbourhood where
  centre : Nat
  low : Nat
  high : Nat
  exponent : Int
  /-- The ends belong to it. -/
  closed : Bool

/-- An end is half way between two doubles, so it belongs to the even one. -/
def neighbourhood (mantissa : Nat) (exponent : Int) : Neighbourhood where
  centre := 4 * mantissa
  low := if mantissa = 2 ^ 52 ∧ exponent ≠ -1074 then 4 * mantissa - 1 else 4 * mantissa - 2
  high := 4 * mantissa + 2
  exponent := exponent - 2
  closed := mantissa % 2 = 0

namespace Neighbourhood

variable (n : Neighbourhood)

/-- Puts `c · 10 ^ q` and `x · 2 ^ exponent` over a common denominator. -/
def common (c : Nat) (q : Int) (x : Nat) : Nat × Nat :=
  (c * 10 ^ q.toNat * 2 ^ (-n.exponent).toNat, x * 2 ^ n.exponent.toNat * 10 ^ (-q).toNat)

/-- Whether `c · 10 ^ q` lies in the neighbourhood. -/
def contains (c : Nat) (q : Int) : Bool :=
  let (a, low) := n.common c q n.low
  let (_, high) := n.common c q n.high
  if n.closed then low ≤ a && a ≤ high else low < a && a < high

/-- The decimal exponent `k` with the centre in `[10 ^ (k - 1), 10 ^ k)`. -/
def magnitude : Int :=
  let (num, den) := (n.centre * 2 ^ n.exponent.toNat, 2 ^ (-n.exponent).toNat)
  if den ≤ num then (Text.numeral (num / den)).length
  else 1 - (Text.numeral (den / num)).length

/-- Of the centre's two neighbours among the multiples of `10 ^ q`, the one in the neighbourhood;
of two the nearer, and of two equally near the greater. -/
def nearest? (q : Int) : Option Nat :=
  let (unit, centre) := n.common 1 q n.centre
  let c := centre / unit
  let r := centre % unit
  match n.contains c q, n.contains (c + 1) q with
  | true, true => some (if unit ≤ 2 * r then c + 1 else c)
  | true, false => some c
  | false, true => some (c + 1)
  | false, false => none

/-- The first of the grids with `count`, `count + 1`, … digits that has a hit; 17 digits always do,
so `left` counts down from there. -/
def search : (left count : Nat) → Nat × Int
  | 0, _ => (n.centre, 0)
  | left + 1, count =>
    let q := n.magnitude - count
    match n.nearest? q with
    | some c => (c, q)
    | none => search left (count + 1)

end Neighbourhood

/-- Strips the trailing zeros of `c · 10 ^ q`. -/
def stripZeros (c : Nat) (q : Int) : Nat × Int :=
  if h : c ≠ 0 ∧ c % 10 = 0 then stripZeros (c / 10) (q + 1) else (c, q)
termination_by c
decreasing_by omega

/-- The fewest digits that read back as a positive double, nearest to it, with their exponent. -/
def shortest (mantissa : Nat) (exponent : Int) : Nat × Int :=
  let (c, q) := (neighbourhood mantissa exponent).search 17 1
  stripZeros c q

/-! ### Writing -/

/-- `digits · 10 ^ exponent` without an exponent mark; `tail` follows a number that has no point. -/
def positional (digits : Text) (exponent : Int) (tail : Text) : Text :=
  match exponent with
  | .ofNat zeros => digits ++ List.replicate zeros '0' ++ tail
  | .negSucc n =>
    let places := n + 1
    let digits := Text.padded (places + 1) digits
    digits.take (digits.length - places) ++ '.' :: digits.drop (digits.length - places)

/-- One digit, the others behind a point, and the exponent of the first. -/
def scientific (digits : Text) (exponent : Int) : Text :=
  let fraction := digits.drop 1
  digits.take 1 ++ (if fraction.isEmpty then [] else '.' :: fraction) ++ 'e' ::
    Text.signedNumeral (exponent + fraction.length)

/-- How a double is written: what follows a whole number, and whether numbers of `10 ^ 16` and more
and positive ones under `10 ^ -4` have an exponent. -/
structure Layout where
  wholeTail : Text
  exponents : Bool

/-- The plain form never has an exponent, and whole numbers have no point. -/
def plain : Layout := ⟨"", false⟩

/-- The form in diagnostics tells a double from an integer. -/
def diagnostic : Layout := ⟨".0", true⟩

def write (l : Layout) : Binary64 → Text
  | nan => "NaN"
  | infinite s => if s then "-inf" else "inf"
  | finite s m e =>
    let sign : Text := if s then "-" else ""
    if m = 0 then sign ++ positional "0" 0 l.wholeTail
    else
      let (c, q) := shortest m e
      let digits := Text.numeral c
      let first := q + digits.length - 1
      if l.exponents && (16 ≤ first || first < -4) then sign ++ scientific digits q
      else sign ++ positional digits q l.wholeTail

end Binary64

end SchemaModels
