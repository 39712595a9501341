/-!
# Text as a list of characters

Everything the generator reads or writes is a list of Unicode scalar values. This file holds the
operations that know nothing of SQL or Go: sizes in bytes, the letter case of ASCII, prefixes and
trimming. Blank characters are those with the Unicode property `White_Space`.
-/

namespace SchemaModels

abbrev Text := List Char

/-- A string literal may stand where a text is expected. -/
instance : Coe String Text := ⟨String.toList⟩

instance : LawfulBEq Text := inferInstance

namespace Text

/-- The number of bytes of the UTF-8 form. -/
def byteLength : Text → Nat
  | [] => 0
  | c :: t => c.utf8Size + byteLength t

@[simp] theorem byteLength_nil : byteLength [] = 0 := rfl

@[simp] theorem byteLength_cons (c : Char) (t : Text) :
    byteLength (c :: t) = c.utf8Size + byteLength t := rfl

@[simp] theorem byteLength_append (s t : Text) :
    byteLength (s ++ t) = byteLength s + byteLength t := by
  induction s with
  | nil => simp
  | cons c s ih => simp [ih, Nat.add_assoc]

/-! ### Characters -/

def isBlank (c : Char) : Bool :=
  let n := c.toNat
  (9 ≤ n && n ≤ 13) || n == 32 || n == 0x85 || n == 0xA0 || n == 0x1680 ||
    (0x2000 ≤ n && n ≤ 0x200A) || n == 0x2028 || n == 0x2029 || n == 0x202F || n == 0x205F ||
    n == 0x3000

theorem isBlank_of_isWhitespace {c : Char} (h : c.isWhitespace = true) : isBlank c = true := by
  simp only [Char.isWhitespace, Bool.or_eq_true, decide_eq_true_eq] at h
  rcases h with ((rfl | rfl) | rfl) | rfl <;> rfl

/-- Control characters: the Unicode category `Cc`. -/
def isControl (c : Char) : Bool :=
  c.toNat < 0x20 || (0x7F ≤ c.toNat && c.toNat < 0xA0)

def isLetter (c : Char) : Bool := c.isAlpha

theorem isLetter_toUpper {c : Char} (h : isLetter c = true) :
    isLetter c.toUpper = true := by
  unfold Char.toUpper
  split
  · rename_i hc
    have h1 := UInt32.le_iff_toNat_le.1 hc.1
    have h2 := UInt32.le_iff_toNat_le.1 hc.2
    unfold isLetter Char.isAlpha Char.isUpper
    simp [UInt32.le_iff_toNat_le, UInt32.toNat_add] at h1 h2 ⊢
    omega
  · exact h

def isHexDigit (c : Char) : Bool :=
  c.isDigit || ('a' ≤ c && c ≤ 'f') || ('A' ≤ c && c ≤ 'F')

/-! ### Letter case

Only the ASCII letters have a case here; every other character stands for itself. -/

def upper (t : Text) : Text := t.map Char.toUpper

def lower (t : Text) : Text := t.map Char.toLower

/-- Two spellings of one word: they differ in the case of ASCII letters at most. -/
def SameWord (s t : Text) : Prop := upper s = upper t

instance (s t : Text) : Decidable (SameWord s t) := inferInstanceAs (Decidable (_ = _))

/-! ### Ends of a text -/

/-- What is left of a text after one of its beginnings. -/
def after? : (start t : Text) → Option Text
  | [], t => some t
  | _ :: _, [] => none
  | a :: s, c :: t => if a = c then after? s t else none

@[simp] theorem after?_append (s t : Text) : after? s (s ++ t) = some t := by
  induction s with
  | nil => simp [after?]
  | cons a s ih => simpa [after?] using ih

theorem eq_append_of_after? {s t r : Text} (h : after? s t = some r) : t = s ++ r := by
  induction s generalizing t with
  | nil => simpa [after?] using h
  | cons a s ih =>
    cases t with
    | nil => simp [after?] at h
    | cons c t =>
      by_cases hc : a = c
      · subst hc
        simp only [after?, if_true] at h
        simp [ih h]
      · simp [after?, hc] at h

def trimStart (t : Text) : Text := t.dropWhile isBlank

def trimEnd (t : Text) : Text := (t.reverse.dropWhile isBlank).reverse

def trim (t : Text) : Text := trimEnd (trimStart t)

/-- The parts of a text between the occurrences of a character: one more than there are
occurrences. -/
def splitOn (sep : Char) : Text → List Text
  | [] => [[]]
  | c :: t =>
    if c = sep then [] :: splitOn sep t
    else match splitOn sep t with
      | [] => [[c]]
      | part :: parts => (c :: part) :: parts

/-- The texts in order with a separator between neighbours. -/
def join (sep : Text) : List Text → Text
  | [] => []
  | [t] => t
  | t :: ts => t ++ sep ++ join sep ts

end Text

end SchemaModels
