import SchemaModels.Number.Binary64

/-!
# Decimals of limited precision

A decimal is read digit by digit into a significand of 64 bits and a power of ten. Digits for which
there is no room any more only count for the power. `significand_lt` says that the significand never
outgrows its 64 bits.
-/

namespace SchemaModels

/-- The number `significand · 10 ^ exponent`. -/
structure Decimal where
  significand : Nat
  exponent : Int
  deriving DecidableEq, Repr, Inhabited

namespace Decimal

/-- A significand with one more digit. -/
def push (significand : Nat) (digit : Char) : Nat := 10 * significand + Text.value [digit]

/-- Puts the digits of a whole number behind a significand. From the first digit for which there is
no room on, each one is a factor of ten. -/
def ofWhole (significand : Nat) : Text → Decimal
  | [] => ⟨significand, 0⟩
  | c :: cs =>
    if push significand c < 2 ^ 64 then ofWhole (push significand c) cs
    else ⟨significand, (c :: cs).length⟩

/-- Puts digits behind the point of a number, as many as there is room for. -/
def withFraction (n : Decimal) : Text → Decimal
  | [] => n
  | c :: cs =>
    if push n.significand c < 2 ^ 64 then
      withFraction ⟨push n.significand c, n.exponent - 1⟩ cs
    else n

/-- The number times a power of ten. -/
def scale (n : Decimal) (exponent : Int) : Decimal := { n with exponent := n.exponent + exponent }

def ofDigits (whole fraction : Text) (exponent : Int) : Decimal :=
  ((ofWhole 0 whole).withFraction fraction).scale exponent

theorem ofWhole_lt {n : Nat} (h : n < 2 ^ 64) (ds : Text) :
    (ofWhole n ds).significand < 2 ^ 64 := by
  induction ds generalizing n with
  | nil => exact h
  | cons c cs ih =>
    rw [ofWhole]
    split
    · next hc => exact ih hc
    · exact h

theorem withFraction_lt {n : Decimal} (h : n.significand < 2 ^ 64) (ds : Text) :
    (n.withFraction ds).significand < 2 ^ 64 := by
  induction ds generalizing n with
  | nil => exact h
  | cons c cs ih =>
    rw [withFraction]
    split
    · next hc => exact ih hc
    · exact h

theorem significand_lt (whole fraction : Text) (exponent : Int) :
    (ofDigits whole fraction exponent).significand < 2 ^ 64 :=
  withFraction_lt (ofWhole_lt (by decide) whole) fraction

/-- Whether a number is out of the range of doubles, where the significand and the power of ten are
rounded before they are multiplied. -/
def overflows (n : Decimal) : Bool :=
  (Binary64.ofDecimal false n.significand 0).mul (.ofDecimal false 1 n.exponent) = .infinite false

end Decimal

end SchemaModels
