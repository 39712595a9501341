import Mathlib.Data.Bool.AllAny
import Mathlib.Data.List.Forall2
import SchemaModels.Naming.Plural
import SchemaModels.Proofs.Text.Characters

/-!
# How words end

The rules for plurals are spelled in small letters, and a set of letters allows a character in one
letter case or another (`Letters.standsFor`). A word has an ending if its last characters are
allowed one by one; its plural keeps what stands in front of them and some of them
(`stem?_eq_some_iff`).
-/

namespace SchemaModels.Naming

/-! ### Small letters -/

def smallLetters : Text := "abcdefghijklmnopqrstuvwxyz"

/-! ### Sets of letters -/

namespace Letters

/-- The letters that a set names. -/
def named : Letters → List Char
  | only cs => cs
  | except cs => cs
  | any => []

/-- The set leaves out what it does not name. -/
def isPositive : Letters → Bool
  | except _ => false
  | _ => true

/-- Whether a letter of a rule stands for a character of a word. -/
def standsFor (mode : LetterCase) (x c : Char) : Bool :=
  match mode with
  | .capitals => x.toUpper = c
  | .written => x = c
  | .folded => x = foldLetter c

theorem isAmong_eq (mode : LetterCase) (cs : List Char) (c : Char) :
    isAmong mode cs c = cs.any (standsFor mode · c) := by
  cases mode <;> rfl

theorem mem_range_iff (first last : Char) (cs : Text)
    (hcs : ∀ n < last.toNat + 1, first.toNat ≤ n → Char.ofNat n ∈ cs)
    (hrange : ∀ c ∈ cs, first ≤ c ∧ c ≤ last) (c : Char) :
    c ∈ cs ↔ (first ≤ c && c ≤ last) = true := by
  rw [Bool.and_eq_true, decide_eq_true_eq, decide_eq_true_eq]
  refine ⟨hrange c, fun ⟨hfirst, hlast⟩ => ?_⟩
  have hn := hcs c.toNat (Nat.lt_succ_of_le hlast) hfirst
  rwa [Char.ofNat_toNat] at hn

/-- Any letter is one of the small ones. -/
theorem allows_any (mode : LetterCase) (c : Char) :
    any.allows mode c = (only smallLetters).allows mode c := by
  have hsmall := mem_range_iff 'a' 'z' smallLetters (by decide)
    (List.all_iff_forall_prop.1 (by decide))
  have hcapital := mem_range_iff 'A' 'Z' (Text.upper smallLetters) (by decide)
    (List.all_iff_forall_prop.1 (by decide))
  rw [Bool.eq_iff_iff]
  cases mode with
  | capitals => exact (hcapital c).symm.trans (by simp [allows, isAmong, Text.upper])
  | written => exact (hsmall c).symm.trans (by simp [allows, isAmong])
  | folded => exact (hsmall (foldLetter c)).symm.trans (by simp [allows, isAmong])

/-- The set is named by small letters. -/
def IsSmall (l : Letters) : Prop := ∀ x ∈ l.named, x ∈ smallLetters

instance (l : Letters) : Decidable l.IsSmall := List.decidableBAll _ l.named

/-- A set allows a character in one case as it allows another one in another case, if the same
letters stand for them. -/
theorem allows_congr {l : Letters} (hl : l.IsSmall) {mode mode' : LetterCase} {c d : Char}
    (h : ∀ x ∈ smallLetters, standsFor mode' x d = standsFor mode x c) :
    l.allows mode' d = l.allows mode c := by
  have hamong : ∀ cs : List Char, (∀ x ∈ cs, x ∈ smallLetters) →
      isAmong mode' cs d = isAmong mode cs c := by
    intro cs hcs
    rw [isAmong_eq, isAmong_eq, Bool.eq_iff_iff, List.any_eq_true, List.any_eq_true]
    exact exists_congr fun x => and_congr_right fun hx => by rw [h x (hcs x hx)]
  cases l with
  | only cs => exact hamong cs hl
  | except cs => exact congrArg (!·) (hamong cs hl)
  | any =>
      rw [allows_any, allows_any]
      exact hamong smallLetters fun _ hx => hx

/-- A set that allows some letters only allows no character that none of them stands for. -/
theorem allows_eq_false {l : Letters} (hl : l.IsSmall) (hpositive : l.isPositive = true)
    {mode : LetterCase} {c : Char} (h : ∀ x ∈ smallLetters, standsFor mode x c = false) :
    l.allows mode c = false := by
  have hamong : ∀ cs : List Char, (∀ x ∈ cs, x ∈ smallLetters) → isAmong mode cs c = false := by
    intro cs hcs
    rw [isAmong_eq, List.any_eq_false]
    exact fun x hx => Bool.eq_false_iff.1 (h x (hcs x hx))
  cases l with
  | only cs => exact hamong cs hl
  | except cs => cases hpositive
  | any =>
      rw [allows_any]
      exact hamong smallLetters fun _ hx => hx

end Letters

/-! ### Endings -/

/-- The characters are allowed one by one. -/
def Fits (mode : LetterCase) : Text → List Letters → Prop :=
  List.Forall₂ fun c l => l.allows mode c = true

theorem fits_iff {mode : LetterCase} {t : Text} {ls : List Letters} : Fits mode t ls ↔
    (t.length = ls.length && (t.zip ls).all fun p => p.2.allows mode p.1) = true := by
  rw [Fits, List.forall₂_iff_zip, Bool.and_eq_true, decide_eq_true_eq, List.all_eq_true]
  exact and_congr_right fun _ => ⟨fun h p hp => h hp, fun h c l hp => h (c, l) hp⟩

theorem Fits.append {mode : LetterCase} {s t : Text} {ks ls : List Letters} (hs : Fits mode s ks)
    (ht : Fits mode t ls) : Fits mode (s ++ t) (ks ++ ls) := List.rel_append hs ht

/-- A word has an ending if it is a text in front of characters that the ending allows. -/
theorem stem?_eq_some_iff {e : Ending} {mode : LetterCase} {isWhole : Bool} {w stem : Text} :
    e.stem? mode isWhole w = some stem ↔ ∃ front kept dropped, w = front ++ (kept ++ dropped) ∧
      stem = front ++ kept ∧ Fits mode kept e.kept ∧ Fits mode dropped e.dropped ∧
      (isWhole = true → front = []) := by
  let n := w.length - (e.kept ++ e.dropped).length
  have hstem : e.stem? mode isWhole w = some stem ↔ Fits mode (w.drop n) (e.kept ++ e.dropped) ∧
      (isWhole = true → w.take n = []) ∧ w.take (w.length - e.dropped.length) = stem := by
    rw [fits_iff]
    unfold Ending.stem?
    cases isWhole <;> simp [n, and_assoc]
  rw [hstem]
  constructor
  · rintro ⟨hfits, hwhole, rfl⟩
    have hlength : (w.drop n).length = e.kept.length + e.dropped.length :=
      hfits.length_eq.trans List.length_append
    have hsplit : w.take n ++ w.drop n = w := List.take_append_drop n w
    have hw : w.length = (w.take n).length + (w.drop n).length := by
      rw [← List.length_append, hsplit]
    refine ⟨w.take n, (w.drop n).take e.kept.length, (w.drop n).drop e.kept.length, ?_, ?_,
      List.forall₂_take_append _ _ _ hfits, List.forall₂_drop_append _ _ _ hfits, hwhole⟩
    · rw [List.take_append_drop, hsplit]
    · have htake : w.length - e.dropped.length = (w.take n).length + e.kept.length := by omega
      have hfront : (w.take n ++ w.drop n).take ((w.take n).length + e.kept.length) =
          w.take n ++ (w.drop n).take e.kept.length := List.take_length_add_append _
      rw [htake, ← hfront, hsplit]
  · rintro ⟨front, kept, dropped, hw, rfl, hkept, hdropped, hwhole⟩
    have hn : n = front.length := by
      have hkeptLength := hkept.length_eq
      have hdroppedLength := hdropped.length_eq
      simp only [n, hw, List.length_append]
      omega
    have hstem : w.length - e.dropped.length = (front ++ kept).length := by
      rw [hw, ← hdropped.length_eq]
      simp only [List.length_append]
      omega
    rw [hstem, hn, hw, List.drop_left, List.take_left, ← List.append_assoc, List.take_left]
    exact ⟨hkept.append hdropped, hwhole, rfl⟩

/-! ### Rules -/

/-- Each set names the letters that it allows. -/
def isLiteral (ls : List Letters) : Bool :=
  ls.all fun
    | .only _ => true
    | _ => false

namespace PluralRule

/-- All sets of a rule name the letters that they allow. -/
def isLiteral (r : PluralRule) : Bool :=
  r.endings.all fun e => Naming.isLiteral (e.kept ++ e.dropped)

/-- The rule is spelled in small letters, each of its endings holds letters that are allowed by name
or range, and if it is one for whole words, by name only. -/
structure IsSpelled (r : PluralRule) : Prop where
  small : ∀ e ∈ r.endings, ∀ l ∈ e.kept ++ e.dropped, l.IsSmall
  positive : ∀ e ∈ r.endings, ∃ l ∈ e.kept ++ e.dropped, l.isPositive = true
  added : ∀ c ∈ r.added, c ∈ smallLetters
  literal : r.isWhole = true → r.isLiteral = true

/-- What a rule keeps of a word. -/
def stem? (r : PluralRule) (mode : LetterCase) (w : Text) : Option Text :=
  r.endings.findSome? (·.stem? mode r.isWhole w)

/-- What a rule puts behind a word. -/
def addedIn (r : PluralRule) (mode : LetterCase) : Text :=
  if mode = .capitals then Text.upper r.added else r.added

theorem pluralIn?_eq (r : PluralRule) (mode : LetterCase) (w : Text) :
    r.pluralIn? mode w = (r.stem? mode w).map (· ++ r.addedIn mode) := rfl

/-- A rule has a plural of a word in some letter case. -/
theorem exists_mode_of_plural? {r : PluralRule} {w plural : Text} (h : r.plural? w = some plural) :
    ∃ mode, r.pluralIn? mode w = some plural := by
  rw [plural?, Option.or_eq_some_iff, Option.or_eq_some_iff] at h
  obtain h | ⟨-, h | ⟨-, h⟩⟩ := h
  · exact ⟨.capitals, h⟩
  · exact ⟨.written, h⟩
  · exact ⟨.folded, h⟩

theorem exists_of_pluralIn? {r : PluralRule} {mode : LetterCase} {w plural : Text}
    (h : r.pluralIn? mode w = some plural) : ∃ e ∈ r.endings, ∃ front kept dropped,
      w = front ++ (kept ++ dropped) ∧ plural = front ++ kept ++ r.addedIn mode ∧
      Fits mode kept e.kept ∧ Fits mode dropped e.dropped ∧ (r.isWhole = true → front = []) := by
  obtain ⟨stem, hstem, rfl⟩ := Option.map_eq_some_iff.1 h
  obtain ⟨e, he, hword⟩ := List.exists_of_findSome?_eq_some hstem
  obtain ⟨front, kept, dropped, hw, rfl, hfits⟩ := stem?_eq_some_iff.1 hword
  exact ⟨e, he, front, kept, dropped, hw, rfl, hfits⟩

end PluralRule

theorem isSpelled_of_mem {r : PluralRule} (h : r ∈ pluralRules) : r.IsSpelled := by
  have hsmall : ∀ r ∈ pluralRules, ∀ e ∈ r.endings, ∀ l ∈ e.kept ++ e.dropped, l.IsSmall := by
    decide
  have hpositive : ∀ r ∈ pluralRules, ∀ e ∈ r.endings,
      ∃ l ∈ e.kept ++ e.dropped, l.isPositive = true := by decide
  have hadded : ∀ r ∈ pluralRules, r.added.all (fun c => c ∈ smallLetters) = true := by decide
  have hliteral : ∀ r ∈ pluralRules, r.isWhole = true → r.isLiteral = true := by decide
  exact ⟨hsmall r h, hpositive r h, List.all_iff_forall_prop.1 (hadded r h), hliteral r h⟩

/-! ### Irregular words -/

/-- The plural of a word that ends in an irregular one as it is written in a style. -/
def irregularIn? (style : Text → Text) (entry : String × String) (w : Text) : Option Text :=
  let front := w.take (w.length - entry.1.length)
  if front ++ style entry.1 = w then some (front ++ style entry.2) else none

theorem irregular?_eq (entry : String × String) (w : Text) : irregular? entry w =
    (irregularIn? Text.upper entry w).or ((irregularIn? titled entry w).or
      (irregularIn? id entry w)) := by
  have hfind : irregular? entry w =
      [Text.upper, titled, id].findSome? fun style => irregularIn? style entry w := rfl
  rw [hfind]
  simp only [List.findSome?_cons, List.findSome?_nil]
  cases irregularIn? Text.upper entry w <;> cases irregularIn? titled entry w <;>
    cases irregularIn? id entry w <;> rfl

/-- The spellings in which an irregular word counts. -/
def styles : List (Text → Text) := [Text.upper, titled, id]

theorem exists_of_irregular? {entry : String × String} {w plural : Text}
    (h : irregular? entry w = some plural) : ∃ style ∈ styles, ∃ front,
      w = front ++ style entry.1 ∧ plural = front ++ style entry.2 := by
  obtain ⟨style, hstyle, h⟩ := List.exists_of_findSome?_eq_some h
  have hin : irregularIn? style entry w = some plural := h
  rw [irregularIn?] at hin
  split at hin
  · rename_i hw
    cases hin
    exact ⟨style, hstyle, _, hw.symm, rfl⟩
  · cases hin

end SchemaModels.Naming
