import SchemaModels.Naming.Camel
import SchemaModels.Proofs.Text.LetterCase

/-!
# Names read from left to right

A name can be written while it is read: the letters of a word are kept until the word ends, and its
first letter becomes a capital if nothing but the end of another word came last. What is written
from a state of this reading on is given by the stretches of the rest (`out_foldl`), so from the
beginning it is the name in camel case (`camel_eq_scanned`).
-/

namespace SchemaModels.Naming

/-! ### Reading from left to right -/

/-- What has been written of a name, and the letters of the word that is not finished. `fresh` says
that a letter would be the first one of its word. -/
structure Scan where
  out : Text
  word : Text
  fresh : Bool

namespace Scan

def start : Scan := ⟨[], [], true⟩

/-- Writes the unfinished word. -/
def flush (a : Acronyms) (s : Scan) : Scan := { s with out := s.out ++ a.spell s.word, word := [] }

def step (a : Acronyms) (s : Scan) (c : Char) : Scan :=
  if Text.isLetter c then
    { s with word := s.word ++ [if s.fresh then c.toUpper else c], fresh := false }
  else if c.isDigit then
    { s.flush a with out := (s.flush a).out ++ [c], fresh := true }
  else if isSeparator c then { s.flush a with fresh := true }
  else { s with fresh := false }

end Scan

/-- The name that is written character by character. -/
def scanned (a : Acronyms) (name : Text) : Text :=
  (((Text.trim name).foldl (Scan.step a) Scan.start).flush a).out

/-- The letters that a stretch adds to a word. -/
def restOfWord (fresh : Bool) (w : Text) : Text :=
  if fresh then capitalized w else w.filter Text.isLetter

/-- What is written for stretches of which the first one goes on with a word. -/
def textFrom (a : Acronyms) (word : Text) (fresh : Bool) : List Piece → Text
  | .word w :: ps => a.spell (word ++ restOfWord fresh w) ++ ps.flatMap (Piece.text a)
  | ps => a.spell word ++ ps.flatMap (Piece.text a)

theorem spell_nil (a : Acronyms) : a.spell [] = [] := by
  unfold Acronyms.spell
  split <;> rfl

/-- At the beginning of a name all stretches are written. -/
theorem textFrom_start (a : Acronyms) (ps : List Piece) :
    textFrom a [] true ps = ps.flatMap (Piece.text a) := by
  rcases ps with _ | ⟨⟨w⟩ | ⟨d⟩, ps⟩
  · simp [textFrom, spell_nil]
  · simp [textFrom, restOfWord, Piece.text]
  · simp [textFrom, spell_nil]

theorem textFrom_mark (a : Acronyms) (word : Text) (fresh : Bool) (c : Char) (ps : List Piece) :
    textFrom a word fresh (.mark c :: ps) =
      a.spell word ++ (Piece.text a (.mark c) ++ textFrom a [] true ps) := by
  rw [textFrom_start]
  rfl

/-- A digit or a separator, which ends a word. -/
def isMark (c : Char) : Bool := c.isDigit || isSeparator c

theorem isLetter_of_isMark {c : Char} (h : isMark c = true) : Text.isLetter c = false := by
  simp only [isMark, isSeparator, Bool.or_eq_true, beq_iff_eq] at h
  rcases h with h | ((rfl | rfl) | rfl) | rfl
  · exact Text.isAlpha_of_isDigit h
  all_goals decide

theorem pieces_mark {c : Char} (h : isMark c = true) (t : Text) :
    pieces (c :: t) = .mark c :: pieces t := by
  rw [pieces]
  exact if_pos h

/-- A character that ends no word goes on with the stretch behind it. -/
theorem textFrom_pieces {c : Char} (h : isMark c = false) (a : Acronyms) (word : Text)
    (fresh : Bool) (t : Text) : textFrom a word fresh (pieces (c :: t)) =
      textFrom a (word ++ restOfWord fresh [c]) false (pieces t) := by
  have hrest : ∀ w, restOfWord fresh (c :: w) = restOfWord fresh [c] ++ restOfWord false w := by
    intro w
    cases fresh <;> simp [restOfWord, capitalized, List.filter_cons] <;> split <;> simp
  rw [pieces, if_neg (by simpa [isMark] using h)]
  cases pieces t with
  | nil => rfl
  | cons p ps =>
      cases p with
      | word w => simp only [textFrom, hrest w, List.append_assoc]
      | mark d => rfl

/-- What is written from a state on. -/
theorem out_foldl (a : Acronyms) (t : Text) (s : Scan) :
    ((t.foldl (Scan.step a) s).flush a).out = s.out ++ textFrom a s.word s.fresh (pieces t) := by
  induction t generalizing s with
  | nil => simp [Scan.flush, pieces, textFrom]
  | cons c t ih =>
      rw [List.foldl_cons, ih]
      cases hmark : isMark c with
      | true =>
          have hletter := isLetter_of_isMark hmark
          rw [pieces_mark hmark, textFrom_mark]
          cases hdigit : c.isDigit with
          | true => simp [Scan.step, Scan.flush, hletter, hdigit, Piece.text]
          | false =>
              have hsep : isSeparator c = true := by simpa [isMark, hdigit] using hmark
              simp [Scan.step, Scan.flush, hletter, hdigit, hsep, Piece.text]
      | false =>
          rw [textFrom_pieces hmark]
          rw [isMark, Bool.or_eq_false_iff] at hmark
          cases hletter : Text.isLetter c with
          | true =>
              have hcap : restOfWord s.fresh [c] = [if s.fresh then c.toUpper else c] := by
                cases s.fresh <;> simp [restOfWord, capitalized, hletter, Text.isLetter_toUpper_eq]
              simp [Scan.step, hletter, hcap]
          | false =>
              have hnone : restOfWord s.fresh [c] = [] := by
                cases s.fresh <;> simp [restOfWord, capitalized, hletter, Text.isLetter_toUpper_eq]
              simp [Scan.step, hletter, hmark, hnone]

theorem camel_eq_scanned (a : Acronyms) (name : Text) : camel a name = scanned a name := by
  rw [scanned, out_foldl]
  exact (textFrom_start a _).symm

end SchemaModels.Naming
