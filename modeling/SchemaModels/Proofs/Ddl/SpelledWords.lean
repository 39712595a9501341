import Mathlib.Data.List.TakeWhile
import SchemaModels.Proofs.Ddl.Spells
import SchemaModels.Proofs.Text.Characters

/-!
# Numbers and words that spell themselves

A numeral below the largest integer spells that integer. A word of letters and low lines spells the
keyword that it is, or else itself as a name; so do the names of the types.
-/

namespace SchemaModels.Ddl

open Lexer (token startsName)
open Text (not_mem_of_any)

/-! ### Numbers -/

theorem token_of_isDigit {c : Char} (hc : c.isDigit = true) (o : Nat) (r : Text) :
    token o c r = Lexer.number o (c :: r) := by
  have hmarks : c ∉ ['\'', '"', '\x60', 'X', 'x'] := not_mem_of_any hc (by decide)
  simp only [List.mem_cons, List.not_mem_nil, or_false, not_or] at hmarks
  have hnone := symbol?_eq_none (not_mem_of_any hc (by decide))
    (not_mem_of_any hc (by decide)) o r
  unfold token
  rw [hnone]
  simp [hmarks, hc]

/-- The token of a numeral is a fault where the number is too large. -/
theorem token_numeral {n : Nat} {c : Char} {r : Text} (hn : Text.numeral n = c :: r) :
    token 0 c r = (if n < 2 ^ 63 then .integer n else .fault .integerRange,
      ⟨Text.byteLength (c :: r), []⟩) := by
  have hvalue := Text.value_numeral n
  have hdigit : ∀ c ∈ Text.numeral n, c.isDigit = true := fun c hc => Text.isDigit_of_mem_numeral hc
  rw [hn] at hvalue hdigit
  have hwhole : (c :: r).takeWhile Char.isDigit = c :: r := List.takeWhile_eq_self_iff.2 hdigit
  have hnone : (c :: r).dropWhile Char.isDigit = [] := List.dropWhile_eq_nil_iff.2 hdigit
  have hinteger : Lexer.integer (c :: r) =
      if n < 2 ^ 63 then .integer n else .fault .integerRange := by
    unfold Lexer.integer
    rw [hvalue]
  rw [token_of_isDigit (hdigit c List.mem_cons_self), Lexer.number, hwhole, hnone]
  simp [Lexer.fractionPart, Lexer.exponentPart, hinteger]

theorem exists_numeral_eq_cons (n : Nat) : ∃ c r, Text.numeral n = c :: r ∧ ∀ r, Begins c r := by
  obtain ⟨c, r, hn⟩ := List.exists_cons_of_ne_nil (Text.numeral_ne_nil n)
  have hc : c.isDigit = true := Text.isDigit_of_mem_numeral (hn ▸ List.mem_cons_self)
  exact ⟨c, r, hn, begins_of_not_mem (Text.isBlank_of_isDigit hc) (not_mem_of_any hc (by decide))⟩

theorem kindsOf_nil : kindsOf [] = [] := by
  rw [kindsOf, lexemes, lexemesFrom_of_eof rfl, List.map_nil]

theorem kindsOf_numeral (n : Nat) :
    kindsOf (Text.numeral n) = [if n < 2 ^ 63 then .integer n else .fault .integerRange] := by
  obtain ⟨c, r, hn, hbegins⟩ := exists_numeral_eq_cons n
  have htoken := token_numeral hn
  rw [hn, kindsOf_token (hbegins r) (by rw [htoken]; split <;> exact nofun), htoken, kindsOf_nil]

theorem spells_numeral {n : Nat} (h : n < 2 ^ 63) : Spells (Text.numeral n) [.integer n] := by
  obtain ⟨c, r, hn, hbegins⟩ := exists_numeral_eq_cons n
  have htoken := token_numeral hn
  rw [if_pos h] at htoken
  rw [hn]
  exact spells_token hbegins htoken rfl (by simp [TokenKind.IsFault])

/-! ### Words -/

/-- Letters and low lines, of which the first one is a letter. -/
def isPlainWord : Text → Bool
  | [] => false
  | c :: r => c.isAlpha && r.all fun d => d.isAlpha || d == '_'

theorem continuesName_of_isPlainWord {w : Text} (h : isPlainWord w = true) :
    ∀ c ∈ w, Lexer.continuesName c = true := by
  have hletter {c : Char} (hc : (c.isAlpha || c == '_') = true) : Lexer.continuesName c = true := by
    rw [Bool.or_eq_true] at hc
    rcases hc with hc | hc
    · simp [Lexer.continuesName, startsName, Text.isAlphabetic_of_isAlpha hc]
    · simp [Lexer.continuesName, startsName, hc]
  cases w with
  | nil => cases h
  | cons c r =>
      simp only [isPlainWord, Bool.and_eq_true, List.all_eq_true] at h
      intro d hd
      rcases List.mem_cons.1 hd with rfl | hd
      · exact hletter (by simp [h.1])
      · exact hletter (h.2 d hd)

theorem token_of_isPlainWord {c : Char} {r u : Text} (h : isPlainWord (c :: r) = true)
    (hu : u.head? ≠ some '\'') : token 0 c (r ++ u) = Lexer.word 0 (c :: r ++ u) := by
  simp only [isPlainWord, Bool.and_eq_true, List.all_eq_true] at h
  obtain ⟨hc, hr⟩ := h
  have hmarks : c ∉ ['\'', '"', '\x60'] := not_mem_of_any hc (by decide)
  simp only [List.mem_cons, List.not_mem_nil, or_false, not_or] at hmarks
  have hdigit := Text.isDigit_of_isAlpha hc
  have hquote : (r ++ u).head? ≠ some '\'' := by
    cases r with
    | nil => exact hu
    | cons d r =>
        rintro ⟨⟩
        exact absurd (hr _ List.mem_cons_self) (by decide)
  have hnone := symbol?_eq_none (not_mem_of_any hc (by decide))
    (not_mem_of_any hc (by decide)) 0 (r ++ u)
  rw [List.cons_append]
  generalize r ++ u = rest at hquote hnone ⊢
  unfold token
  rw [hnone]
  simp [hmarks, hquote, hdigit, startsName, Text.isAlphabetic_of_isAlpha hc]

/-- A word is read whole before what goes on with no name. -/
theorem kindsOf_word {w u : Text} (h : isPlainWord w = true)
    (hu : ∀ d ∈ u.head?, Lexer.continuesName d = false ∧ d ≠ '\'') :
    kindsOf (w ++ u) = (match Keyword.ofText? w with
      | some k => .keyword k
      | none => .identifier w) :: kindsOf u := by
  cases w with
  | nil => cases h
  | cons c r =>
      have hname := continuesName_of_isPlainWord h
      have hend : u.takeWhile Lexer.continuesName = [] ∧
          u.dropWhile Lexer.continuesName = u := by
        cases u with
        | nil => exact ⟨rfl, rfl⟩
        | cons d u => simp [(hu d rfl).1]
      have htoken := token_of_isPlainWord h (u := u) fun hquote => (hu _ hquote).2 rfl
      rw [Lexer.word, List.takeWhile_append_of_pos hname, hend.1, List.append_nil,
        List.dropWhile_append_of_pos hname, hend.2] at htoken
      simp only [isPlainWord, Bool.and_eq_true] at h
      have hbegins := begins_of_not_mem (Text.isBlank_of_isAlpha h.1)
        (not_mem_of_any h.1 (by decide)) (r ++ u)
      exact (kindsOf_token hbegins (Lexer.token_ne_eof 0 c _)).trans
        (congrArg (fun x : TokenKind × Place => x.1 :: kindsOf x.2.rest) htoken)

/-- A word spells a keyword or itself. -/
theorem spells_word {w : Text} (h : isPlainWord w = true) : Spells w [match Keyword.ofText? w with
    | some k => .keyword k
    | none => .identifier w] := by
  have hendings : ∀ d ∈ Lexer.endings, Lexer.continuesName d = false ∧ d ≠ '\'' :=
    Lexer.forall_mem_endings.2 (by decide +kernel)
  exact fun u hu => kindsOf_word h fun d hd => hendings d (hu.severed d hd)

theorem spells_keyword (k : Keyword) : Spells k.spelling [.keyword k] := by
  have hword : isPlainWord k.spelling = true := by cases k <;> decide
  have h := spells_word hword
  rwa [Keyword.ofText?_spelling] at h

/-- The types whose names stand for themselves. -/
theorem spells_identifier {w : Text} (hword : isPlainWord w = true) (h : Keyword.ofText? w = none) :
    Spells w [.identifier w] := by
  have hw := spells_word hword
  rwa [h] at hw

theorem spells_sized (k : SizedType) : Spells k.name [.identifier k.name] := by
  cases k <;> exact spells_identifier (by decide) (by decide)

theorem spells_precise (k : PreciseType) : Spells k.name [.identifier k.name] := by
  cases k <;> exact spells_identifier (by decide) (by decide)

theorem spells_plain {k : PlainType} (hk : k ≠ .boolean) : Spells k.name [.identifier k.name] := by
  cases k with
  | boolean => exact absurd rfl hk
  | _ => exact spells_identifier (by decide) (by decide)

end SchemaModels.Ddl
