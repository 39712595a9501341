import SchemaModels.Text.Basic

/-!
# Numerals

Decimal and hexadecimal numerals as texts. `value_numeral` says that a decimal numeral denotes the
number it was written for.
-/

namespace SchemaModels.Text

-- Powers are those of the core library, with Mathlib imported or not.
attribute [instance (1100), default_instance 20000] instPowNat

/-- A number in decimal, without leading zeros. -/
def numeral (n : Nat) : Text := Nat.toDigits 10 n

def signedNumeral : Int → Text
  | .ofNat n => numeral n
  | .negSucc n => '-' :: numeral (n + 1)

/-- A number in hexadecimal with small letters, without leading zeros. -/
def hexNumeral (n : Nat) : Text := Nat.toDigits 16 n

/-- The number that a run of decimal digits denotes. -/
def value (digits : Text) : Nat := Nat.ofDigitChars 10 digits 0

theorem value_numeral (n : Nat) : value (numeral n) = n :=
  Nat.ofDigitChars_ten_toDigits

theorem isDigit_of_mem_numeral {c : Char} {n : Nat} (h : c ∈ numeral n) : c.isDigit = true :=
  Nat.isDigit_of_mem_toDigits (by decide) (by decide) h

theorem numeral_ne_nil (n : Nat) : numeral n ≠ [] := Nat.toDigits_ne_nil

/-- A numeral filled up with zeros on the left. -/
def padded (width : Nat) (digits : Text) : Text :=
  List.replicate (width - digits.length) '0' ++ digits

def hexDigitValue (c : Char) : Nat :=
  if c.isDigit then c.toNat - '0'.toNat
  else if 'a' ≤ c then c.toNat - 'a'.toNat + 10
  else c.toNat - 'A'.toNat + 10

end SchemaModels.Text
