import Mathlib.Data.Bool.AllAny
import SchemaModels.Proofs.Ddl.Spells
import SchemaModels.Proofs.Text.LetterCase

/-!
# Reading back what is quoted

A name in backquotes, a string between quotes and bytes in hexadecimal are each one token, and that
token holds what was written (`tokens_of_quoted`). For names and strings, doubling what ends or
escapes is all it takes (`quotedText_doubled`); for bytes the letter case of the digits does not
matter (`blobBytes_hexText`).
-/

namespace SchemaModels

namespace Text

/-! ### Hexadecimal digits in either letter case -/

theorem isHexDigit_iff (c : Char) : isHexDigit c = true ↔
    (48 ≤ c.toNat ∧ c.toNat ≤ 57) ∨ (97 ≤ c.toNat ∧ c.toNat ≤ 102) ∨
      (65 ≤ c.toNat ∧ c.toNat ≤ 70) := by
  simp [isHexDigit, Char.isDigit, UInt32.le_iff_toNat_le, Char.le_def, or_assoc]

theorem hexDigitValue_eq (c : Char) : hexDigitValue c =
    if 48 ≤ c.toNat ∧ c.toNat ≤ 57 then c.toNat - 48
    else if 97 ≤ c.toNat then c.toNat - 97 + 10 else c.toNat - 65 + 10 := by
  simp [hexDigitValue, Char.isDigit, UInt32.le_iff_toNat_le, Char.le_def]

theorem isHexDigit_toUpper (c : Char) : isHexDigit c.toUpper = isHexDigit c := by
  rw [Bool.eq_iff_iff, isHexDigit_iff, isHexDigit_iff, toNat_toUpper]
  split
  · omega
  · rfl

theorem hexDigitValue_toUpper (c : Char) : hexDigitValue c.toUpper = hexDigitValue c := by
  rw [hexDigitValue_eq, hexDigitValue_eq, toNat_toUpper]
  split
  · rw [if_neg (by omega), if_neg (by omega), if_neg (by omega), if_pos (by omega)]
    omega
  · rfl

/-- A character that is one of the sixteen digits but for its letter case. -/
theorem hexDigit_of_toUpper {c : Char} {d : Nat} (hd : d < 16)
    (h : c.toUpper = (Nat.digitChar d).toUpper) :
    isHexDigit c = true ∧ hexDigitValue c = d := by
  have hdigits : ∀ d < 16, isHexDigit (Nat.digitChar d).toUpper = true ∧
      hexDigitValue (Nat.digitChar d).toUpper = d := by decide
  rw [← isHexDigit_toUpper, ← hexDigitValue_toUpper, h]
  exact hdigits d hd

end Text

namespace Ddl

open Lexer (blobBytes quotedText token)
open Text (isHexDigit hexDigitValue SameWord)

/-! ### Bytes -/

theorem hexByte_eq (b : UInt8) :
    hexByte b = [Nat.digitChar (b.toNat / 16), Nat.digitChar (b.toNat % 16)].map Char.toUpper := by
  have hb := b.toNat_lt
  refine congrArg (List.map Char.toUpper) ?_
  unfold Text.hexNumeral
  by_cases hsmall : b.toNat < 16
  · rw [Nat.toDigits_of_lt_base hsmall, Nat.div_eq_of_lt hsmall, Nat.mod_eq_of_lt hsmall]
    rfl
  · rw [Nat.toDigits_of_base_le (by decide) (by omega), Nat.toDigits_of_lt_base (by omega)]
    rfl

/-- Bytes as two hexadecimal digits each. -/
def hexText (bs : List UInt8) : Text := bs.flatMap hexByte

/-- The digits of some bytes, in any letter case, are read as these bytes. -/
theorem blobBytes_hexText {bs : List UInt8} {digits : Text} (h : SameWord digits (hexText bs))
    (o : Nat) (u : Text) :
    blobBytes o (digits ++ '\'' :: u) = (.ok bs, ⟨o + digits.length + 1, u⟩) := by
  have hquote {c : Char} (hc : isHexDigit c = true) : c ≠ '\'' := by
    rintro rfl
    exact absurd hc (by decide)
  induction bs generalizing digits o with
  | nil =>
      obtain rfl : digits = [] := List.map_eq_nil_iff.1 h
      cases u <;> rfl
  | cons b bs ih =>
      have hupper : Text.upper digits = (Nat.digitChar (b.toNat / 16)).toUpper ::
          (Nat.digitChar (b.toNat % 16)).toUpper :: Text.upper (hexText bs) := by
        rw [h, hexText, List.flatMap_cons, hexByte_eq]
        simp [Text.upper, hexText, Text.toUpper_toUpper]
      obtain ⟨x, digits, rfl, hx, htail⟩ := List.map_eq_cons_iff.1 hupper
      obtain ⟨y, digits, rfl, hy, hdigits⟩ := List.map_eq_cons_iff.1 htail
      have hb := b.toNat_lt
      obtain ⟨hxhex, hxvalue⟩ := Text.hexDigit_of_toUpper (by omega) hx
      obtain ⟨hyhex, hyvalue⟩ := Text.hexDigit_of_toUpper (by omega) hy
      have hbyte : UInt8.ofNat (16 * hexDigitValue x + hexDigitValue y) = b := by
        rw [hxvalue, hyvalue, Nat.div_add_mod, UInt8.ofNat_toNat]
      rw [List.cons_append, List.cons_append, blobBytes, if_neg (hquote hxhex),
        if_neg (by simp [hxhex]), if_neg (hquote hyhex), if_neg (by simp [hyhex]), ih hdigits,
        hbyte]
      simp only [List.length_cons, Except.map]
      congr 2
      omega

/-! ### Texts of one token -/

/-- The text is read as one token, from its beginning to its end. -/
def ReadsAs (source : Text) (k : TokenKind) : Prop :=
  tokens source = [⟨k, ⟨0, Text.byteLength source⟩⟩, endToken source]

theorem readsAs_of_token {c : Char} {r : Text} {k : TokenKind} {p : Place} (hc : Begins c r)
    (htoken : token 0 c r = (k, p)) (hrest : p.rest = []) : ReadsAs (c :: r) k := by
  have hnext := next_of_begins hc 0
  rw [htoken] at hnext
  have hstop : p.offset = Text.byteLength (c :: r) := by
    have h := Lexer.token_stop 0 c r
    rw [htoken, Place.stop, hrest] at h
    simpa using h
  have heof : k ≠ .eof := by
    have h := Lexer.token_ne_eof 0 c r
    rwa [htoken] at h
  obtain ⟨o, rest⟩ := p
  obtain rfl : rest = [] := hrest
  rw [ReadsAs, tokens, lexemes, lexemesFrom_of_ne_eof (by rwa [hnext]), hnext,
    lexemesFrom_of_eof rfl, ← hstop]
  rfl

theorem begins_of_mem {c : Char} (hc : c ∈ ['\'', '"', '\x60', 'X', 'x']) (t : Text) :
    Begins c t := by
  have hbegins : ∀ c ∈ ['\'', '"', '\x60', 'X', 'x'],
      Text.isBlank c = false ∧ c ∉ ['#', '-', '/'] := List.all_iff_forall_prop.1 (by decide)
  exact begins_of_not_mem (hbegins c hc).1 (hbegins c hc).2 t

/-- A token between quotes, given how it is read from behind the first one. -/
theorem readsAs_quoted {q : Char} {isString : Bool} {special : List Char}
    {kind : Text → TokenKind} {f : LexicalFault} (hq : q ∈ ['\'', '"', '\x60'])
    (hspecial : ∀ c, c ∈ special ↔ c = q ∨ (isString = true ∧ c = '\\'))
    (htoken : ∀ r, token 0 q r = Lexer.closed kind f (quotedText q isString 1 r)) (t : Text) :
    ReadsAs (q :: doubled special t ++ [q]) (kind t) := by
  obtain ⟨hvalue, hrest⟩ := quotedText_doubled hspecial (b := []) nofun 1 t
  exact readsAs_of_token (begins_of_mem (List.mem_append_left ['X', 'x'] hq) _)
    ((htoken _).trans (closed_of_some hvalue)) hrest

theorem token_of_quote {q : Char} (hq : q ∈ ['\'', '"']) (r : Text) :
    token 0 q r = Lexer.closed .string .openString (quotedText q true 1 r) := by
  have hnone : ∀ q ∈ ['\'', '"'],
      q ∉ Lexer.pairs.map (·.1.1) ∧ q ∉ Lexer.singles.map (·.1) :=
    List.all_iff_forall_prop.1 (by decide)
  unfold token
  rw [symbol?_eq_none (hnone q hq).1 (hnone q hq).2]
  exact if_pos (by simpa using hq)

theorem token_of_blob {x : Char} (hx : x ∈ ['X', 'x']) (r : Text) :
    token 0 x ('\'' :: r) = Lexer.blob (blobBytes 2 r) := by
  simp only [List.mem_cons, List.not_mem_nil, or_false] at hx
  obtain rfl | rfl := hx
  · rfl
  · rfl

/-- Lexing undoes quoting. -/
theorem tokens_of_quoted :
    (∀ name, ReadsAs (backquoted name) (.identifier name)) ∧
    (∀ q ∈ ['\'', '"'], ∀ s, ReadsAs (q :: doubled [q, '\\'] s ++ [q]) (.string s)) ∧
    ∀ x ∈ ['X', 'x'], ∀ bs digits, SameWord digits (hexText bs) →
      ReadsAs (x :: '\'' :: digits ++ ['\'']) (.blob bs) := by
  refine ⟨fun name => ?_, fun q hq s => ?_, fun x hx bs digits hdigits => ?_⟩
  · exact readsAs_quoted (by decide) (by simp) (token_backquote 0) name
  · exact readsAs_quoted (List.mem_append_left ['\x60'] hq) (by simp) (token_of_quote hq) s
  · have htoken := token_of_blob hx (digits ++ ['\''])
    rw [blobBytes_hexText hdigits] at htoken
    have hopen := List.mem_append_right ['\'', '"', '\x60'] hx
    exact readsAs_of_token (begins_of_mem hopen _) htoken rfl

/-- A name that begins and ends with a backquote, a string of quotes and backslashes before a
wildcard, and bytes in digits of either letter case. -/
theorem tokens_of_awkward_quoted :
    ReadsAs "```a\\```" (.identifier "`a\\`") ∧
    ('"' ∈ ['\'', '"'] ∧ ReadsAs "\"'\"\"\\\\%\\\\\"" (.string "'\"\\%\\")) ∧
    ('x' ∈ ['X', 'x'] ∧ SameWord "00fFAb" (hexText [0, 255, 171]) ∧
      ReadsAs "x'00fFAb'" (.blob [0, 255, 171])) := by
  have hcase : SameWord "00fFAb" (hexText [0, 255, 171]) := by decide
  exact ⟨tokens_of_quoted.1 "`a\\`",
    ⟨by decide, tokens_of_quoted.2.1 '"' (by decide) "'\"\\%\\"⟩,
    ⟨by decide, hcase, tokens_of_quoted.2.2 'x' (by decide) [0, 255, 171] "00fFAb" hcase⟩⟩

end Ddl

end SchemaModels
