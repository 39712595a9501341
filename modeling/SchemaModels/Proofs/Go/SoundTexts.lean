import SchemaModels.Proofs.Go.Regions

/-!
# Sound texts

What a reader of the whole text says of it. A text is sound or not (`IsSound`). If it is, each of
its lines begins in a region and among brackets that the text before it settles (`IsRecord`); if it
is not, there is a first fault (`FirstFault`). Behind a fault no text becomes sound again
(`Fault.not_isBeginning`), and a sound one has none (`IsSound.not_fault`).
-/

namespace SchemaModels.Go.Format

/-- A text is sound if it ends in code or in a line comment, with no literal broken on the way, and
its brackets are nested. -/
structure IsSound (t : Text) : Prop where
  ends : region t = some .code ∨ region t = some .lineComment
  nested : Nested (brackets t)

/-! ### Lines -/

/-- A text ends in the word `struct` and blanks on the line of that word. -/
def FollowsStruct (t : Text) : Prop :=
  ∃ front gap, t = front ++ ("struct".toList ++ gap) ∧ gap.all Text.isBlank = true ∧ '\n' ∉ gap

/-- A line of a text, what stands before it and what stands behind it. -/
structure IsLine (source before line behind : Text) : Prop where
  source_eq : source = before ++ (line ++ behind)
  begins : ∀ c ∈ before.getLast?, c = '\n'
  unbroken : '\n' ∉ line
  ends : ∀ c ∈ behind.head?, c = '\n'

/-- What is recorded of a line follows from the text before it: how many brackets that has opened
and not closed, what it ends inside of, and whether its innermost open bracket is that of a
struct. -/
structure Records (before : Text) (l : Line) : Prop where
  number : l.number = before.count '\n' + 1
  depth : l.depth + (brackets before).countP isClosing = (brackets before).countP isOpening
  isVerbatim : l.isVerbatim = true ↔
    region before = some .rawString ∨ region before = some .blockComment
  inStruct : l.inStruct = true ↔ ∃ front, Innermost before front .curly ∧ FollowsStruct front

/-- The record is that of the line with `k` line breaks before it. -/
def IsRecord (source : Text) (k : Nat) (l : Line) : Prop :=
  ∃ before behind, IsLine source before l.text behind ∧ before.count '\n' = k ∧ Records before l

/-! ### Faults -/

/-- What is wrong with a text where it goes on with a character behind `before`, or ends there. -/
inductive Fault (before : Text) : Option Char → FormatError.Cause → Prop
  | unexpectedBracket {c : Char} (hcode : region before = some .code) (hc : isClosing c = true)
    (hnested : Nested (brackets before)) : Fault before (some c) (.unexpectedBracket c)
  | mismatch {c : Char} {front : Text} {b : Bracket} (hcode : region before = some .code)
    (hc : isClosing c = true) (hopen : Innermost before front b) (hne : b.closing ≠ c) :
    Fault before (some c) (.mismatch b.closing c)
  | openString {next : Option Char} (hregion : region before = some .string)
    (hnext : next = none ∨ next = some '\n') : Fault before next .openString
  | openRune {next : Option Char} (hregion : region before = some .rune)
    (hnext : next = none ∨ next = some '\n') : Fault before next .openRune
  | openRawString (hregion : region before = some .rawString) : Fault before none .openRawString
  | openComment (hregion : region before = some .blockComment) : Fault before none .openComment
  | openBracket {front : Text} {b : Bracket}
    (hregion : region before = some .code ∨ region before = some .lineComment)
    (hopen : Innermost before front b) : Fault before none (.openBracket b.closing)

/-- No fault shows before the end of the text. -/
def FaultFree (t : Text) : Prop :=
  ∀ front c cause, front ++ [c] <+: t → ¬ Fault front (some c) cause

/-- The error is the first fault of the text and carries the number of its line. -/
def FirstFault (source : Text) (e : FormatError) : Prop :=
  ∃ before behind, source = before ++ behind ∧ FaultFree before ∧
    Fault before behind.head? e.cause ∧ e.line = before.count '\n' + 1

/-- The text could be the beginning of a sound one: every literal ends on its line, and every
bracket that closes one closes the innermost one. -/
structure IsBeginning (t : Text) : Prop where
  reads : reading t ≠ none
  closes : openBehind [] (brackets t) ≠ none

theorem IsBeginning.of_isPrefix {s t : Text} (ht : IsBeginning t) (h : s <+: t) :
    IsBeginning s := by
  refine ⟨reading_ne_none_of_isPrefix h ht.reads, fun hs => ht.closes ?_⟩
  obtain ⟨u, hu⟩ := brackets_prefix h
  rw [← hu, openBehind_append, hs]
  rfl

theorem brackets_closing {t : Text} {c : Char} (hcode : region t = some .code)
    (hc : isClosing c = true) : brackets (t ++ [c]) = brackets t ++ [c] := by
  rw [brackets_concat, if_pos ⟨hcode, by simp [hc]⟩]

theorem reading_newline {t : Text} {r : Region} (h : region t = some r)
    (hr : r = .string ∨ r = .rune) : reading (t ++ ['\n']) = none := by
  obtain ⟨⟨region, pending⟩, hreading, rfl⟩ := Option.map_eq_some_iff.1 h
  rw [reading_concat, hreading]
  obtain rfl | rfl := hr <;> rfl

/-- With a fault in it no text can be the beginning of a sound one. -/
theorem Fault.not_isBeginning {t : Text} {c : Char} {cause : FormatError.Cause}
    (h : Fault t (some c) cause) : ¬ IsBeginning (t ++ [c]) := by
  intro hbeginning
  cases h with
  | unexpectedBracket hcode hc hnested =>
      refine hbeginning.closes ?_
      rw [brackets_closing hcode hc]
      refine openBehind_concat_eq_none hc fun b bs hbs => ?_
      rw [hnested.openBehind_eq] at hbs
      cases hbs
  | @mismatch _ front b hcode hc hopen hne =>
      refine hbeginning.closes ?_
      obtain ⟨s, hs, hbrackets⟩ := hopen.nested
      rw [brackets_closing hcode hc]
      refine openBehind_concat_eq_none hc fun b' bs hbs => ?_
      rw [hbrackets] at hbs
      obtain ⟨os, -, heq⟩ := exists_of_openBehind hs hbs
      cases heq
      exact hne
  | openString hregion hnext =>
      obtain rfl : c = '\n' := by simpa using hnext
      exact hbeginning.reads (reading_newline hregion (.inl rfl))
  | openRune hregion hnext =>
      obtain rfl : c = '\n' := by simpa using hnext
      exact hbeginning.reads (reading_newline hregion (.inr rfl))

theorem IsBeginning.faultFree {t : Text} (h : IsBeginning t) : FaultFree t :=
  fun _ _ _ hprefix hfault => hfault.not_isBeginning (h.of_isPrefix hprefix)

namespace IsSound

variable {t : Text}

theorem isBeginning (h : IsSound t) : IsBeginning t := by
  refine ⟨fun hnone => ?_, fun hnone => ?_⟩
  · have hends := h.ends
    rw [region, hnone] at hends
    obtain hends | hends := hends <;> cases hends
  · rw [h.nested.openBehind_eq] at hnone
    cases hnone

/-- A sound text may end. -/
theorem not_fault_none (h : IsSound t) (cause : FormatError.Cause) : ¬ Fault t none cause := by
  have hregion : ∀ {r : Region}, region t = some r → r = .code ∨ r = .lineComment := by
    intro r hr
    have hends := h.ends
    simpa [hr] using hends
  intro hfault
  cases hfault with
  | openString hr _ => simpa using hregion hr
  | openRune hr _ => simpa using hregion hr
  | openRawString hr => simpa using hregion hr
  | openComment hr => simpa using hregion hr
  | openBracket _ hopen => exact hopen.not_nested h.nested

/-- Nothing is wrong with a sound text, at its end or before. -/
theorem not_fault (h : IsSound t) {before behind : Text} (ht : t = before ++ behind)
    (cause : FormatError.Cause) : ¬ Fault before behind.head? cause := by
  cases behind with
  | nil =>
      rw [List.append_nil] at ht
      exact ht ▸ h.not_fault_none cause
  | cons c behind => exact h.isBeginning.faultFree before c cause ⟨behind, by simp [ht]⟩

end IsSound

end SchemaModels.Go.Format
