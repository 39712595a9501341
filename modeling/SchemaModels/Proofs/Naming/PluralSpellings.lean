import SchemaModels.Proofs.Naming.PluralEndings

/-!
# What rules spell

Where the last sets of an ending name the letters that they allow, they spell texts
(`spellings`). A word of which a rule has a plural ends in one of the texts of the rule, without
regard to letter case (`exists_tail`); if all sets of a rule name their letters, the rule has a
plural of every such word (`plural?_eq_none_iff`). The plural ends in a text of the rule as well
(`exists_plural`).
-/

namespace SchemaModels.Naming

open Letters (standsFor)

/-! ### Letters for characters -/

/-- A text without regard to letter case. -/
def folded (t : Text) : Text := t.map foldLetter

theorem folded_append (s t : Text) : folded (s ++ t) = folded s ++ folded t := List.map_append

/-- The letters stand for the characters one by one. -/
def StandFor (mode : LetterCase) : (letters t : Text) → Prop :=
  List.Forall₂ fun x c => standsFor mode x c = true

theorem standFor_capitals_iff {u t : Text} : StandFor .capitals u t ↔ t = Text.upper u := by
  have hletter : ∀ x c, standsFor .capitals x c = true ↔ x.toUpper = c := fun x c =>
    decide_eq_true_iff
  rw [StandFor, Text.upper, eq_comm, ← List.forall₂_eq_eq_eq, List.forall₂_map_left_iff]
  simp only [hletter]

theorem standFor_written_iff {u t : Text} : StandFor .written u t ↔ t = u := by
  have hletter : ∀ x c, standsFor .written x c = true ↔ x = c := fun x c => decide_eq_true_iff
  rw [StandFor, eq_comm, ← List.forall₂_eq_eq_eq]
  simp only [hletter]

theorem standFor_folded_iff {u t : Text} : StandFor .folded u t ↔ folded t = u := by
  have hletter : ∀ x c, standsFor .folded x c = true ↔ x = foldLetter c := fun x c =>
    decide_eq_true_iff
  rw [StandFor, folded, eq_comm, ← List.forall₂_eq_eq_eq, List.forall₂_map_right_iff]
  simp only [hletter]

theorem folded_small {u : Text} (hu : ∀ x ∈ u, x ∈ smallLetters) :
    folded u = u ∧ folded (Text.upper u) = u := by
  have hall : ∀ x ∈ smallLetters, foldLetter x = x ∧ foldLetter x.toUpper = x :=
    List.all_iff_forall_prop.1 (by decide)
  have hcongr : ∀ {f : Char → Char}, (∀ x ∈ u, f x = x) → u.map f = u := fun hf =>
    (List.map_congr_left (g := id) hf).trans (List.map_id u)
  rw [folded, folded, Text.upper, List.map_map]
  exact ⟨hcongr fun x hx => (hall x (hu x hx)).1, hcongr fun x hx => (hall x (hu x hx)).2⟩

/-- Whatever the letter case, small letters are those of the text without regard to it. -/
theorem StandFor.folded_eq {mode : LetterCase} {u t : Text} (h : StandFor mode u t)
    (hu : ∀ x ∈ u, x ∈ smallLetters) : folded t = u := by
  cases mode with
  | capitals => rw [standFor_capitals_iff.1 h, (folded_small hu).2]
  | written => rw [standFor_written_iff.1 h, (folded_small hu).1]
  | folded => exact standFor_folded_iff.1 h

/-! ### Texts of endings -/

/-- The texts that the sets spell, as far back from the end as they name their letters. -/
def spellings : List Letters → List Text
  | [] => [[]]
  | .only cs :: ls =>
    if isLiteral ls then cs.flatMap fun c => (spellings ls).map (c :: ·) else spellings ls
  | _ :: ls => spellings ls

theorem small_of_mem_spellings {ls : List Letters} (h : ∀ l ∈ ls, l.IsSmall) {u : Text}
    (hu : u ∈ spellings ls) : ∀ x ∈ u, x ∈ smallLetters := by
  induction ls generalizing u with
  | nil =>
      rw [List.mem_singleton.1 hu]
      nofun
  | cons l ls ih =>
      have hrest := fun hu => ih (fun l hl => h l (List.mem_cons_of_mem _ hl)) (u := u) hu
      cases l with
      | only cs =>
          rw [spellings] at hu
          split at hu
          · obtain ⟨c, hc, hu⟩ := List.mem_flatMap.1 hu
            obtain ⟨v, hv, rfl⟩ := List.mem_map.1 hu
            exact List.forall_mem_cons.2 ⟨h _ List.mem_cons_self c hc,
              ih (fun l hl => h l (List.mem_cons_of_mem _ hl)) hv⟩
          · exact hrest hu
      | except cs => exact hrest hu
      | any => exact hrest hu

theorem fits_cons_only_iff {mode : LetterCase} {t : Text} {cs : List Char} {ls : List Letters} :
    Fits mode t (.only cs :: ls) ↔
      ∃ x ∈ cs, ∃ c rest, t = c :: rest ∧ standsFor mode x c = true ∧ Fits mode rest ls := by
  rw [Fits, List.forall₂_cons_right_iff]
  constructor
  · rintro ⟨c, rest, hc, hrest, rfl⟩
    rw [Letters.allows, Letters.isAmong_eq, List.any_eq_true] at hc
    obtain ⟨x, hx, hxc⟩ := hc
    exact ⟨x, hx, c, rest, rfl, hxc, hrest⟩
  · rintro ⟨x, hx, c, rest, rfl, hxc, hrest⟩
    refine ⟨c, rest, ?_, hrest, rfl⟩
    rw [Letters.allows, Letters.isAmong_eq, List.any_eq_true]
    exact ⟨x, hx, hxc⟩

theorem fits_iff_of_isLiteral {mode : LetterCase} {t : Text} {ls : List Letters}
    (h : isLiteral ls = true) : Fits mode t ls ↔ ∃ u ∈ spellings ls, StandFor mode u t := by
  induction ls generalizing t with
  | nil => simp [Fits, spellings, StandFor]
  | cons l ls ih =>
      cases l with
      | only cs =>
          have hls : isLiteral ls = true := h
          rw [fits_cons_only_iff, spellings, if_pos hls]
          constructor
          · rintro ⟨x, hx, c, rest, rfl, hxc, hrest⟩
            obtain ⟨u, hu, hstand⟩ := (ih hls).1 hrest
            exact ⟨x :: u, List.mem_flatMap.2 ⟨x, hx, List.mem_map_of_mem hu⟩, .cons hxc hstand⟩
          · rintro ⟨v, hv, hstand⟩
            obtain ⟨x, hx, hv⟩ := List.mem_flatMap.1 hv
            obtain ⟨u, hu, rfl⟩ := List.mem_map.1 hv
            obtain ⟨c, rest, hxc, hrest, rfl⟩ := List.forall₂_cons_left_iff.1 hstand
            exact ⟨x, hx, c, rest, rfl, hxc, (ih hls).2 ⟨u, hu, hrest⟩⟩
      | except cs => cases h
      | any => cases h

/-- What fits ends in characters for which a spelled text stands, and is no more than these if the
sets name their letters. -/
theorem Fits.exists_spelling {mode : LetterCase} {t : Text} {ls : List Letters}
    (h : Fits mode t ls) : ∃ u ∈ spellings ls, ∃ front rest, t = front ++ rest ∧
      StandFor mode u rest ∧ (isLiteral ls = true → front = []) := by
  induction h with
  | nil => exact ⟨[], List.mem_singleton_self _, [], [], rfl, .nil, fun _ => rfl⟩
  | @cons c l t ls hc h ih =>
      by_cases hliteral : isLiteral (l :: ls) = true
      · obtain ⟨u, hu, hstand⟩ := (fits_iff_of_isLiteral hliteral).1 (.cons hc h)
        exact ⟨u, hu, [], c :: t, rfl, hstand, fun _ => rfl⟩
      · obtain ⟨u, hu, front, rest, rfl, hstand, -⟩ := ih
        refine ⟨u, ?_, c :: front, rest, rfl, hstand, fun h => absurd h hliteral⟩
        cases l with
        | only cs =>
            have hls : ¬ isLiteral ls = true := hliteral
            rwa [spellings, if_neg hls]
        | except cs => exact hu
        | any => exact hu

/-! ### Texts of rules -/

/-- The text comes last in the other one, and is the whole of it if it has to be. -/
def EndsIn (isWhole : Bool) (u t : Text) : Prop :=
  ∃ front, t = front ++ u ∧ (isWhole = true → front = [])

/-- The text comes last in the other one in some letter case: in capitals, or with its end as it is
written. -/
def EndsAs (isWhole : Bool) (written u t : Text) : Prop :=
  ∃ front tail, t = front ++ tail ∧ (isWhole = true → front = []) ∧ folded tail = u ∧
    (tail = Text.upper u ∨ written <:+ tail)

theorem endsIn_concat_iff {isWhole : Bool} {u t : Text} {c : Char} :
    EndsIn isWhole (u ++ [c]) (t ++ [c]) ↔ EndsIn isWhole u t := by
  refine exists_congr fun front => and_congr_left fun _ => ?_
  rw [← List.append_assoc, List.append_left_inj]

theorem EndsAs.isSuffix {isWhole : Bool} {written u t : Text} (h : EndsAs isWhole written u t) :
    u <:+ folded t := by
  obtain ⟨front, tail, rfl, -, rfl, -⟩ := h
  rw [folded_append]
  exact List.suffix_append _ _

namespace PluralRule

/-- How words end of which the rule may have a plural. -/
def tails (r : PluralRule) : List Text :=
  r.endings.flatMap fun e => spellings (e.kept ++ e.dropped)

/-- How the plurals of the rule end. -/
def plurals (r : PluralRule) : List Text :=
  r.endings.flatMap fun e => (spellings e.kept).map (· ++ r.added)

/-- The rule puts behind a word what it has dropped from it. -/
def keeps (r : PluralRule) : Bool :=
  r.isLiteral && r.endings.all fun e => spellings e.dropped == [r.added]

namespace IsSpelled

variable {r : PluralRule} (hr : r.IsSpelled) {w : Text}

include hr

theorem folded_addedIn (mode : LetterCase) : folded (r.addedIn mode) = r.added := by
  unfold addedIn
  split
  · exact (folded_small hr.added).2
  · exact (folded_small hr.added).1

/-- A word ends in a text of a rule that has a plural of it. -/
theorem exists_tail {plural : Text} (h : r.plural? w = some plural) :
    ∃ u ∈ r.tails, u <:+ folded w ∧ (r.isLiteral = true → EndsIn r.isWhole u (folded w)) := by
  obtain ⟨mode, hmode⟩ := exists_mode_of_plural? h
  obtain ⟨e, he, front, kept, dropped, rfl, -, hkept, hdropped, hwhole⟩ := exists_of_pluralIn? hmode
  obtain ⟨u, hu, before, rest, hrest, hstand, hbefore⟩ :=
    (hkept.append hdropped).exists_spelling
  have hmem : u ∈ r.tails := List.mem_flatMap.2 ⟨e, he, hu⟩
  have hword : folded (front ++ (kept ++ dropped)) = folded (front ++ before) ++ u := by
    rw [hrest, ← List.append_assoc, folded_append,
      hstand.folded_eq (small_of_mem_spellings (hr.small e he) hu)]
  refine ⟨u, hmem, ⟨_, hword.symm⟩, fun hliteral => ⟨_, hword, fun h => ?_⟩⟩
  rw [hwhole h, hbefore (List.all_eq_true.1 hliteral e he)]
  rfl

/-- The plural ends in a text of the rule, too. -/
theorem exists_plural {plural : Text} (h : r.plural? w = some plural) :
    ∃ u ∈ r.plurals, EndsAs r.isWhole r.added u plural := by
  obtain ⟨mode, hmode⟩ := exists_mode_of_plural? h
  obtain ⟨e, he, front, kept, dropped, -, rfl, hkept, -, hwhole⟩ := exists_of_pluralIn? hmode
  obtain ⟨u, hu, before, rest, rfl, hstand, hbefore⟩ := hkept.exists_spelling
  have hsmall : ∀ x ∈ u, x ∈ smallLetters := small_of_mem_spellings
    (fun l hl => hr.small e he l (List.mem_append_left _ hl)) hu
  refine ⟨u ++ r.added, List.mem_flatMap.2 ⟨e, he, List.mem_map_of_mem hu⟩, front ++ before,
    rest ++ r.addedIn mode, by simp, fun h => ?_, ?_⟩
  · have hliteral := List.all_eq_true.1 (hr.literal h) e he
    rw [Naming.isLiteral, List.all_append, Bool.and_eq_true] at hliteral
    rw [hwhole h, hbefore hliteral.1]
    rfl
  · by_cases hcapitals : mode = .capitals
    · subst hcapitals
      rw [standFor_capitals_iff.1 hstand, folded_append, (folded_small hsmall).2]
      exact ⟨congrArg (u ++ ·) (folded_small hr.added).2, Or.inl List.map_append.symm⟩
    · have hadded : r.addedIn mode = r.added := if_neg hcapitals
      rw [hadded, folded_append, hstand.folded_eq hsmall, (folded_small hr.added).1]
      exact ⟨rfl, Or.inr (List.suffix_append rest r.added)⟩

omit hr in
/-- A rule that names its letters has a plural of a word that ends in one of its texts. -/
theorem pluralIn?_ne_none (hliteral : r.isLiteral = true) {mode : LetterCase} {u front tail : Text}
    (hu : u ∈ r.tails) (hstand : StandFor mode u tail) (hwhole : r.isWhole = true → front = []) :
    r.pluralIn? mode (front ++ tail) ≠ none := by
  obtain ⟨e, he, hu⟩ := List.mem_flatMap.1 hu
  have hfits := (fits_iff_of_isLiteral (List.all_eq_true.1 hliteral e he)).2 ⟨u, hu, hstand⟩
  have hstem : e.stem? mode r.isWhole (front ++ tail) = some (front ++ tail.take e.kept.length) :=
    stem?_eq_some_iff.2 ⟨front, tail.take e.kept.length, tail.drop e.kept.length,
      by rw [List.take_append_drop], rfl, List.forall₂_take_append _ _ _ hfits,
      List.forall₂_drop_append _ _ _ hfits, hwhole⟩
  rw [pluralIn?_eq, Ne, Option.map_eq_none_iff, PluralRule.stem?, List.findSome?_eq_none_iff]
  intro hnone
  rw [hnone e he] at hstem
  cases hstem

omit hr in
theorem plural?_ne_none (mode : LetterCase) (h : r.pluralIn? mode w ≠ none) :
    r.plural? w ≠ none := by
  intro hnone
  rw [plural?, Option.or_eq_none_iff, Option.or_eq_none_iff] at hnone
  cases mode with
  | capitals => exact h hnone.1
  | written => exact h hnone.2.1
  | folded => exact h hnone.2.2

/-- A rule that names its letters has a plural of exactly the words that end in one of its texts. -/
theorem plural?_eq_none_iff (hliteral : r.isLiteral = true) :
    r.plural? w = none ↔ ∀ u ∈ r.tails, ¬ EndsIn r.isWhole u (folded w) := by
  constructor
  · rintro hnone u hu ⟨front, hw, hwhole⟩
    have htail : folded (w.drop front.length) = u := by
      rw [folded, List.map_drop, ← folded, hw, List.drop_left]
    have hfront : r.isWhole = true → w.take front.length = [] := fun h => by
      rw [hwhole h]
      rfl
    have hsome := pluralIn?_ne_none hliteral hu (standFor_folded_iff.2 htail) hfront
    rw [List.take_append_drop] at hsome
    exact plural?_ne_none .folded hsome hnone
  · intro h
    refine Option.eq_none_iff_forall_ne_some.2 fun plural hplural => ?_
    obtain ⟨u, hu, -, hends⟩ := hr.exists_tail hplural
    exact h u hu (hends hliteral)

/-- What a rule that keeps what it drops makes of a word differs from it in letter case at most. -/
theorem folded_of_keeps (hkeeps : r.keeps = true) {plural : Text} (h : r.plural? w = some plural) :
    folded plural = folded w := by
  rw [keeps, Bool.and_eq_true, List.all_eq_true] at hkeeps
  obtain ⟨mode, hmode⟩ := exists_mode_of_plural? h
  obtain ⟨e, he, front, kept, dropped, rfl, rfl, -, hdropped, -⟩ := exists_of_pluralIn? hmode
  have hliteral := List.all_eq_true.1 hkeeps.1 e he
  rw [Naming.isLiteral, List.all_append, Bool.and_eq_true] at hliteral
  obtain ⟨u, hu, hstand⟩ := (fits_iff_of_isLiteral hliteral.2).1 hdropped
  rw [beq_iff_eq.1 (hkeeps.2 e he), List.mem_singleton] at hu
  subst hu
  rw [← List.append_assoc, folded_append, folded_append _ dropped, hr.folded_addedIn,
    hstand.folded_eq hr.added]

omit hr in
/-- In each letter case, what a rule that keeps what it drops makes of a word that it has the plural
of is the word itself, if the end of the word is as it is written. -/
theorem eq_of_pluralIn? (hkeeps : r.keeps = true) {mode : LetterCase} {plural : Text}
    (h : r.pluralIn? mode w = some plural) (hmode : mode = .folded → r.added <:+ w) :
    plural = w := by
  rw [keeps, Bool.and_eq_true, List.all_eq_true] at hkeeps
  obtain ⟨e, he, front, kept, dropped, rfl, rfl, -, hdropped, -⟩ := exists_of_pluralIn? h
  have hliteral := List.all_eq_true.1 hkeeps.1 e he
  rw [Naming.isLiteral, List.all_append, Bool.and_eq_true] at hliteral
  obtain ⟨u, hu, hstand⟩ := (fits_iff_of_isLiteral hliteral.2).1 hdropped
  rw [beq_iff_eq.1 (hkeeps.2 e he), List.mem_singleton] at hu
  subst hu
  have hsame : r.addedIn mode = dropped := by
    cases mode with
    | capitals => exact (standFor_capitals_iff.1 hstand).symm
    | written => exact (standFor_written_iff.1 hstand).symm
    | folded =>
        have hadded := hmode rfl
        rw [← List.append_assoc] at hadded
        have hle := List.suffix_of_suffix_length_le hadded (List.suffix_append _ dropped)
          (Nat.le_of_eq hstand.length_eq)
        exact hle.eq_of_length hstand.length_eq
  rw [hsame, List.append_assoc]

omit hr in
/-- A rule that keeps what it drops leaves a word that ends in one of its texts as it is. -/
theorem plural?_of_keeps (hkeeps : r.keeps = true) {u : Text} (hu : u ∈ r.tails)
    (h : EndsAs r.isWhole r.added u w) : r.plural? w = some w := by
  obtain ⟨front, tail, rfl, hwhole, htail, hcase⟩ := h
  have hliteral : r.isLiteral = true := (Bool.and_eq_true_iff.1 hkeeps).1
  unfold plural?
  cases hcapitals : r.pluralIn? .capitals (front ++ tail) with
  | some plural => rw [eq_of_pluralIn? hkeeps hcapitals nofun, Option.some_or]
  | none =>
      obtain hupper | hadded := hcase
      · exact absurd hcapitals
          (pluralIn?_ne_none hliteral hu (standFor_capitals_iff.2 hupper) hwhole)
      · have hend : r.added <:+ front ++ tail := hadded.trans (List.suffix_append front tail)
        cases hwritten : r.pluralIn? .written (front ++ tail) with
        | some plural => rw [eq_of_pluralIn? hkeeps hwritten nofun, Option.none_or, Option.some_or]
        | none =>
            cases hfolded : r.pluralIn? .folded (front ++ tail) with
            | some plural =>
                rw [eq_of_pluralIn? hkeeps hfolded fun _ => hend, Option.none_or, Option.none_or]
            | none =>
                exact absurd hfolded
                  (pluralIn?_ne_none hliteral hu (standFor_folded_iff.2 htail) hwhole)

end IsSpelled

end PluralRule

end SchemaModels.Naming
