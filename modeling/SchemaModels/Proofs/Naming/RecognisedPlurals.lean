import SchemaModels.Proofs.Naming.PluralSpellings

/-!
# Plurals that count as plural

A plural counts as plural if the rules leave it as it is. Of two texts in which a word ends, one
ends in the other (`meet_of_isSuffix`), so only the rules that meet the end of a plural can change
it. The table itself settles most plurals: the first rule that meets their end keeps it
(`isSettled_plurals`), and so the plural stays as it is (`pluralize_of_isSettled`). What is left are
the plurals in a bare `s`, which a rule for longer endings may take for a singular
(`isPlural_pluralize_iff`).
-/

namespace SchemaModels.Naming

/-! ### Endings that meet -/

/-- One of the texts ends in the other, so that a word may end in both. -/
def meet (u t : Text) : Bool := u.isSuffixOf t || t.isSuffixOf u

theorem meet_of_isSuffix {u t w : Text} (hu : u <:+ w) (ht : t <:+ w) : meet u t = true := by
  rw [meet, Bool.or_eq_true, List.isSuffixOf_iff_suffix, List.isSuffixOf_iff_suffix]
  exact List.suffix_or_suffix_of_suffix hu ht

/-- A word that ends in the text may end as the rule has it. -/
def PluralRule.meets (r : PluralRule) (t : Text) : Bool := r.tails.any (meet · t)

theorem PluralRule.IsSpelled.plural?_of_meets {r : PluralRule} (hr : r.IsSpelled) {t w : Text}
    (ht : t <:+ folded w) (h : r.meets t = false) : r.plural? w = none := by
  refine Option.eq_none_iff_forall_ne_some.2 fun plural hplural => ?_
  obtain ⟨u, hu, hend, -⟩ := hr.exists_tail hplural
  refine Bool.eq_false_iff.1 h (List.any_eq_true.2 ⟨u, hu, meet_of_isSuffix hend ht⟩)

theorem irregular?_of_meet {entry : String × String} (hentry : entry ∈ irregular) {t w : Text}
    (ht : t <:+ folded w) (h : meet entry.1 t = false) : irregular? entry w = none := by
  have hfolded : ∀ entry ∈ irregular, ∀ style ∈ styles, folded (style entry.1) = entry.1 := by
    decide
  refine Option.eq_none_iff_forall_ne_some.2 fun plural hplural => ?_
  obtain ⟨style, hstyle, front, rfl, -⟩ := exists_of_irregular? hplural
  refine Bool.eq_false_iff.1 h (meet_of_isSuffix ?_ ht)
  rw [folded_append, hfolded entry hentry style hstyle]
  exact List.suffix_append _ _

/-! ### Plurals that are settled -/

/-- No irregular word meets the end of a plural, and the first rule that meets it keeps it. -/
def isSettled (isWhole : Bool) (written t : Text) : Bool :=
  irregular.all (fun entry => !meet entry.1 t) &&
    (pluralRules.find? (·.meets t)).any fun r => r.keeps && r.added.isSuffixOf written &&
      r.tails.any fun u => r.added.isSuffixOf u && u.isSuffixOf t &&
        (!r.isWhole || isWhole && u == t)

theorem EndsAs.mono {isWhole isWhole' : Bool} {written written' t u w : Text}
    (h : EndsAs isWhole written t w) (hu : u <:+ t) (hwritten : written' <:+ written)
    (hend : written' <:+ u) (hwhole : isWhole' = true → isWhole = true ∧ u = t) :
    EndsAs isWhole' written' u w := by
  obtain ⟨front, tail, rfl, hfront, htail, hcase⟩ := h
  obtain ⟨s, rfl⟩ := hu
  have hlast : folded (tail.drop s.length) = u := by
    rw [folded, List.map_drop, ← folded, htail, List.drop_left]
  refine ⟨front ++ tail.take s.length, tail.drop s.length,
    by rw [List.append_assoc, List.take_append_drop], fun h => ?_, hlast, ?_⟩
  · obtain ⟨hwhole, hsame⟩ := hwhole h
    rw [hfront hwhole, List.self_eq_append_left.1 hsame]
    rfl
  · obtain rfl | hadded := hcase
    · left
      rw [Text.upper, List.map_append, List.drop_left' (by rw [List.length_map])]
      rfl
    · right
      have hlength : u.length = (tail.drop s.length).length := by
        rw [← hlast]
        exact List.length_map foldLetter
      exact List.suffix_of_suffix_length_le (hwritten.trans hadded) (List.drop_suffix _ _)
        (hlength ▸ hend.length_le)

/-- What no rule in front of the one that is found has a plural of is left to that one. -/
theorem findSome?_of_find? {rs : List PluralRule} {p : PluralRule → Bool} {r : PluralRule}
    (h : rs.find? p = some r) {w plural : Text} (hr : r.plural? w = some plural)
    (hbefore : ∀ r ∈ rs, p r = false → r.plural? w = none) :
    rs.findSome? (·.plural? w) = some plural := by
  obtain ⟨-, before, after, rfl, hnot⟩ := List.find?_eq_some_iff_append.1 h
  refine List.findSome?_eq_some_iff.2 ⟨before, r, after, rfl, hr, fun r hr => ?_⟩
  exact hbefore r (List.mem_append_left _ hr) (by simpa using hnot r hr)

theorem pluralize_of_isSettled {isWhole : Bool} {written t plural : Text}
    (h : isSettled isWhole written t = true) (hends : EndsAs isWhole written t plural) :
    pluralize plural = plural := by
  have ht := hends.isSuffix
  rw [isSettled, Bool.and_eq_true, List.all_eq_true, Option.any_eq_true] at h
  obtain ⟨hirregular, r, hfind, hr⟩ := h
  simp only [Bool.and_eq_true, List.any_eq_true, List.isSuffixOf_iff_suffix, Bool.or_eq_true,
    Bool.not_eq_true', beq_iff_eq] at hr
  obtain ⟨⟨hkeeps, hadded⟩, u, hu, ⟨hend, hut⟩, hwhole⟩ := hr
  have hkept : r.plural? plural = some plural := by
    refine PluralRule.IsSpelled.plural?_of_keeps hkeeps hu (hends.mono hut hadded hend fun h => ?_)
    exact hwhole.resolve_left (by simp [h])
  have hregular := findSome?_of_find? hfind hkept fun r hr hmeets =>
    (isSpelled_of_mem hr).plural?_of_meets ht hmeets
  have hnone : irregular.findSome? (irregular? · plural) = none := by
    rw [List.findSome?_eq_none_iff]
    exact fun entry hentry => irregular?_of_meet hentry ht (by simpa using hirregular entry hentry)
  unfold pluralize
  split
  · rfl
  · rw [hnone, hregular]
    rfl

/-! ### The table -/

/-- The rules for words with endings of their own. Behind them come the rule for a word that ends in
`s` already and the one for any other letter. -/
def specialRules : List PluralRule := pluralRules.take 19

/-- A word that ends in `s`. -/
def pluralInS : PluralRule := ⟨false, [⟨[], Letters.ofText "s"⟩], "s"⟩

/-- A word that ends in a letter. -/
def anyLetter : PluralRule := ⟨false, [⟨[.any], []⟩], "s"⟩

theorem pluralRules_eq : pluralRules = specialRules ++ [pluralInS, anyLetter] := rfl

theorem isSpelled_of_special {r : PluralRule} (h : r ∈ specialRules) : r.IsSpelled :=
  isSpelled_of_mem (List.mem_of_mem_take h)

theorem isSpelled_pluralInS : pluralInS.IsSpelled :=
  isSpelled_of_mem (List.mem_append_right specialRules List.mem_cons_self)

theorem isSpelled_anyLetter : anyLetter.IsSpelled :=
  isSpelled_of_mem (List.mem_append_right specialRules (List.mem_cons_of_mem _ List.mem_cons_self))

theorem isSettled_plurals : ∀ r ∈ specialRules, ∀ t ∈ r.plurals,
    isSettled r.isWhole r.added t = true := by
  decide

theorem isSettled_irregular : ∀ entry ∈ irregular, entry.1 ∉ ["person", "man", "child"] →
    isSettled false "s" entry.2 = true := by
  decide

/-! ### Plurals in a bare `s` -/

/-- What the singulars in `s` have in front of it, in the rules that know words by their end. -/
def singularEndings : List Text := ["si", "bu", "statu", "campu", "octopu", "viru"]

/-- What the singulars in `s` have in front of it, in the rules for whole words. -/
def singularWords : List Text := ["axi", "testi"]

/-- With an `s` behind it, the word spells a singular of some rule. -/
def SpellsSingular (w : Text) : Prop :=
  (∃ t ∈ singularEndings, t <:+ folded w) ∨ folded w ∈ singularWords

instance (w : Text) : Decidable (SpellsSingular w) := inferInstanceAs (Decidable (_ ∨ _))

/-- The word ends in an irregular one whose plural is not settled. -/
def HasOddPlural (w : Text) : Prop :=
  ∃ t ∈ ["person", "man", "child"], ∃ style ∈ styles, style t.toList <:+ w

instance (w : Text) : Decidable (HasOddPlural w) := inferInstanceAs (Decidable (∃ t ∈ _, _))

/-- Of words that are alike but for letter case, a rule has a plural of both or of neither, if it
names its letters. -/
theorem plural?_eq_none_congr {r : PluralRule} (hr : r.IsSpelled) (hliteral : r.isLiteral = true)
    {w w' : Text} (h : folded w = folded w') : r.plural? w = none ↔ r.plural? w' = none := by
  rw [hr.plural?_eq_none_iff hliteral, hr.plural?_eq_none_iff hliteral, h]

theorem isLiteral_of_meets : ∀ r ∈ specialRules, r.meets "s" = true → r.isLiteral = true := by
  decide

/-- No irregular word ends in `s`. -/
theorem findSome?_irregular_eq_none {w : Text} (hs : "s".toList <:+ folded w) :
    irregular.findSome? (irregular? · w) = none := by
  have hirregular : ∀ entry ∈ irregular, meet entry.1 "s" = false := by decide
  rw [List.findSome?_eq_none_iff]
  exact fun entry hentry => irregular?_of_meet hentry hs (hirregular entry hentry)

/-- A plural in `s` stays as it is if no special rule has it. -/
theorem pluralize_of_special {plural : Text} (hends : EndsAs false "s" "s" plural)
    (h : ∀ r ∈ specialRules, r.plural? plural = none) : pluralize plural = plural := by
  have hspecial : specialRules.findSome? (·.plural? plural) = none :=
    List.findSome?_eq_none_iff.2 h
  have hkept : pluralInS.plural? plural = some plural :=
    PluralRule.IsSpelled.plural?_of_keeps (u := "s") (by decide) (by decide) hends
  unfold pluralize
  split
  · rfl
  · rw [findSome?_irregular_eq_none hends.isSuffix, pluralRules_eq, List.findSome?_append, hspecial,
      List.findSome?_cons, hkept]
    rfl

/-- A rule that has the plural of a word in `s` meets it. -/
theorem meets_of_special {r : PluralRule} (hr : r ∈ specialRules) {w : Text}
    (hs : "s".toList <:+ folded w) (h : r.plural? w ≠ none) : r.meets "s" = true := by
  by_contra hmeets
  exact h ((isSpelled_of_special hr).plural?_of_meets hs (Bool.not_eq_true _ ▸ hmeets))

/-- A word that ends in a text of a special rule, and in `s`, is not its own plural. -/
theorem isUncountable_of_special {r : PluralRule} (hr : r ∈ specialRules) {w : Text}
    (hs : "s".toList <:+ folded w) (h : r.plural? w ≠ none) : isUncountable w = false := by
  have hcountable : ∀ r ∈ specialRules, ∀ u ∈ r.tails, meet u "s" = true →
      ∀ word ∈ uncountable, ¬ u <:+ word.toList := by decide
  obtain ⟨plural, hplural⟩ := Option.ne_none_iff_exists'.1 h
  obtain ⟨u, hu, hend, -⟩ := (isSpelled_of_special hr).exists_tail hplural
  refine Bool.eq_false_iff.2 fun htrue => ?_
  obtain ⟨word, hword, hsame⟩ := List.any_eq_true.1 htrue
  have hfolded : folded w = word.toList := of_decide_eq_true hsame
  exact hcountable r hr u hu (meet_of_isSuffix hend hs) word hword (hfolded ▸ hend)

/-- A plural in `s` that a special rule has a plural of does not stay as it is. -/
theorem pluralize_ne_of_special {plural : Text} (hs : "s".toList <:+ folded plural)
    {r : PluralRule} (hr : r ∈ specialRules) (h : r.plural? plural ≠ none) :
    pluralize plural ≠ plural := by
  have happart : ∀ r ∈ specialRules, r.meets "s" = true → ∀ t ∈ r.plurals, ∀ u ∈ r.tails,
      meet t u = false := by decide
  cases hspecial : specialRules.findSome? (·.plural? plural) with
  | none => exact absurd (List.findSome?_eq_none_iff.1 hspecial r hr) h
  | some q =>
      obtain ⟨r', hr', hq⟩ := List.exists_of_findSome?_eq_some hspecial
      have hsome : r'.plural? plural ≠ none := Option.ne_none_iff_exists'.2 ⟨q, hq⟩
      have hresult : pluralize plural = q := by
        rw [pluralize, isUncountable_of_special hr' hs hsome, findSome?_irregular_eq_none hs,
          pluralRules_eq, List.findSome?_append, hspecial]
        rfl
      rw [hresult]
      rintro rfl
      obtain ⟨t, ht, hends⟩ := (isSpelled_of_special hr').exists_plural hq
      obtain ⟨u, hu, hend, -⟩ := (isSpelled_of_special hr').exists_tail hq
      refine Bool.eq_false_iff.1 (happart r' hr' (meets_of_special hr' hs hsome) t ht u hu) ?_
      exact meet_of_isSuffix hends.isSuffix hend

theorem plural?_ne_none_of_endsIn {r : PluralRule} (hr : r ∈ specialRules)
    (hliteral : r.isLiteral = true) {u w : Text} (hu : u ∈ r.tails)
    (hends : EndsIn r.isWhole u (folded w)) : r.plural? w ≠ none := fun hnone =>
  ((isSpelled_of_special hr).plural?_eq_none_iff hliteral).1 hnone u hu hends

/-- A word that has no rule before the last one spells a singular with an `s` behind it if a special
rule has the plural in `s`. -/
theorem spellsSingular_of_special {w plural : Text}
    (hplural : folded plural = folded w ++ "s".toList)
    (hspecial : ∀ r ∈ specialRules, r.plural? w = none) (hs : pluralInS.plural? w = none)
    {r : PluralRule} (hr : r ∈ specialRules) (h : r.plural? plural ≠ none) : SpellsSingular w := by
  have htails : ∀ r ∈ specialRules, ∀ u ∈ r.tails, meet u "s" = true →
      u = u.dropLast ++ "s".toList ∧ (u.dropLast ∈ singularEndings ∨
        r.isWhole = true ∧ u.dropLast ∈ singularWords ∨
        ∃ r' ∈ specialRules ++ [pluralInS], r'.isLiteral = true ∧ r'.isWhole = false ∧
          ∃ v ∈ r'.tails, v <:+ u.dropLast) := by
    decide
  have hend : "s".toList <:+ folded plural := ⟨_, hplural.symm⟩
  obtain ⟨q, hq⟩ := Option.ne_none_iff_exists'.1 h
  obtain ⟨u, hu, hsuffix, hends⟩ := (isSpelled_of_special hr).exists_tail hq
  obtain ⟨hlast, hcases⟩ := htails r hr u hu (meet_of_isSuffix hsuffix hend)
  have hends := hends (isLiteral_of_meets r hr (meets_of_special hr hend h))
  rw [hplural, hlast] at hends
  obtain ⟨front, hfront, hwhole⟩ := endsIn_concat_iff.1 hends
  obtain hending | ⟨hr, hword⟩ | ⟨r', hr', hliteral, hwhole, v, hv, hvu⟩ := hcases
  · exact Or.inl ⟨_, hending, ⟨front, hfront.symm⟩⟩
  · rw [hwhole hr, List.nil_append] at hfront
    exact Or.inr (hfront ▸ hword)
  · -- The end of the word itself has a rule of its own then.
    have hnone : r'.IsSpelled ∧ r'.plural? w = none := by
      obtain hr' | hr' := List.mem_append.1 hr'
      · exact ⟨isSpelled_of_special hr', hspecial r' hr'⟩
      · exact List.mem_singleton.1 hr' ▸ ⟨isSpelled_pluralInS, hs⟩
    obtain ⟨before, hbefore⟩ := hvu.trans ⟨front, hfront.symm⟩
    refine absurd ⟨before, hbefore.symm, fun h => ?_⟩
      ((hnone.1.plural?_eq_none_iff hliteral).1 hnone.2 v hv)
    rw [hwhole] at h
    cases h

/-- The plural in `s` of a word that spells a singular with it has a special rule. -/
theorem exists_special_of_spellsSingular {w plural : Text}
    (hplural : folded plural = folded w ++ "s".toList) (h : SpellsSingular w) :
    ∃ r ∈ specialRules, r.plural? plural ≠ none := by
  have hendings : ∀ t ∈ singularEndings, ∃ r ∈ specialRules, r.isLiteral = true ∧
      r.isWhole = false ∧ t ++ "s" ∈ r.tails := by decide
  have hwords : ∀ t ∈ singularWords, ∃ r ∈ specialRules, r.isLiteral = true ∧
      t ++ "s" ∈ r.tails := by decide
  obtain ⟨t, ht, front, hfront⟩ | hword := h
  · obtain ⟨r, hr, hliteral, hwhole, hu⟩ := hendings t ht
    refine ⟨r, hr, plural?_ne_none_of_endsIn hr hliteral hu ⟨front, ?_, fun h => ?_⟩⟩
    · rw [hplural, ← hfront, List.append_assoc]
    · rw [hwhole] at h
      cases h
  · obtain ⟨r, hr, hliteral, hu⟩ := hwords _ hword
    exact ⟨r, hr, plural?_ne_none_of_endsIn hr hliteral hu ⟨[], hplural, fun _ => rfl⟩⟩

/-! ### Every word -/

/-- Where the plural of a word comes from. -/
theorem pluralize_cases (w : Text) :
    pluralize w = w ∧ (isUncountable w = true ∨ anyLetter.plural? w = none) ∨
    (∃ entry ∈ irregular, irregular? entry w = some (pluralize w)) ∨
    (∃ r ∈ specialRules, r.plural? w = some (pluralize w)) ∨
    (∀ r ∈ specialRules, r.plural? w = none) ∧
      (pluralInS.plural? w = some (pluralize w) ∨
        pluralInS.plural? w = none ∧ anyLetter.plural? w = some (pluralize w)) := by
  unfold pluralize
  split
  · rename_i huncountable
    exact Or.inl ⟨rfl, Or.inl huncountable⟩
  · cases hirregular : irregular.findSome? (irregular? · w) with
    | some plural =>
        obtain ⟨entry, hentry, h⟩ := List.exists_of_findSome?_eq_some hirregular
        exact Or.inr (Or.inl ⟨entry, hentry, h⟩)
    | none =>
        rw [Option.none_or, pluralRules_eq, List.findSome?_append]
        cases hspecial : specialRules.findSome? (·.plural? w) with
        | some plural =>
            obtain ⟨r, hr, h⟩ := List.exists_of_findSome?_eq_some hspecial
            exact Or.inr (Or.inr (Or.inl ⟨r, hr, h⟩))
        | none =>
            have hnone := List.findSome?_eq_none_iff.1 hspecial
            rw [Option.none_or, List.findSome?_cons, List.findSome?_cons, List.findSome?_nil]
            cases hs : pluralInS.plural? w with
            | some plural => exact Or.inr (Or.inr (Or.inr ⟨hnone, Or.inl rfl⟩))
            | none =>
                cases hletter : anyLetter.plural? w with
                | some plural => exact Or.inr (Or.inr (Or.inr ⟨hnone, Or.inr ⟨rfl, rfl⟩⟩))
                | none => exact Or.inl ⟨rfl, Or.inr rfl⟩

theorem SpellsSingular.exists_suffix {w : Text} (h : SpellsSingular w) :
    ∃ t ∈ singularEndings ++ singularWords, t <:+ folded w := by
  obtain ⟨t, ht, hend⟩ | hword := h
  · exact ⟨t, List.mem_append_left _ ht, hend⟩
  · exact ⟨_, List.mem_append_right _ hword, List.suffix_refl _⟩

theorem not_spellsSingular_of_isSuffix {u w : Text} (hu : u <:+ folded w)
    (h : ∀ t ∈ singularEndings ++ singularWords, meet u t = false) : ¬ SpellsSingular w := by
  intro hw
  obtain ⟨t, ht, hend⟩ := hw.exists_suffix
  exact Bool.eq_false_iff.1 (h t ht) (meet_of_isSuffix hu hend)

theorem anyLetter_ne_none {w : Text} {c : Char} (hc : c ∈ smallLetters) (h : [c] <:+ folded w) :
    anyLetter.plural? w ≠ none := by
  obtain ⟨front, hfront⟩ := h
  obtain ⟨before, last, rfl, -, hlast⟩ := List.map_eq_append_iff.1 hfront.symm
  obtain ⟨d, rfl, hd⟩ := List.map_eq_singleton_iff.1 hlast
  have hfits : Fits .folded [d] [.any] := by
    refine .cons ?_ .nil
    rw [Letters.allows_any, Letters.allows, Letters.isAmong_eq]
    exact List.any_eq_true.2 ⟨c, hc, decide_eq_true hd.symm⟩
  have hstem : Ending.stem? .folded false ⟨[.any], []⟩ (before ++ [d]) = some (before ++ [d]) :=
    stem?_eq_some_iff.2
      ⟨before, [d], [], rfl, rfl, hfits, .nil, fun h => absurd h Bool.false_ne_true⟩
  refine PluralRule.IsSpelled.plural?_ne_none .folded ?_
  rw [PluralRule.pluralIn?, anyLetter, List.findSome?_singleton, hstem]
  exact Option.some_ne_none _

theorem anyLetter_of_spellsSingular {w : Text} (h : SpellsSingular w) :
    anyLetter.plural? w ≠ none := by
  have hlast : ∀ t ∈ singularEndings ++ singularWords,
      smallLetters.any (fun c => [c] <:+ t) = true := by decide
  obtain ⟨t, ht, hend⟩ := h.exists_suffix
  obtain ⟨c, hc, hct⟩ := List.any_iff_exists_prop.1 (hlast t ht)
  exact anyLetter_ne_none hc (hct.trans hend)

theorem folded_of_anyLetter {w plural : Text} (h : anyLetter.plural? w = some plural) :
    folded plural = folded w ++ "s".toList := by
  obtain ⟨mode, hmode⟩ := PluralRule.exists_mode_of_plural? h
  obtain ⟨e, he, front, kept, dropped, rfl, rfl, -, hdropped, -⟩ :=
    PluralRule.exists_of_pluralIn? hmode
  rw [List.mem_singleton.1 he] at hdropped
  rw [folded_append, isSpelled_anyLetter.folded_addedIn, List.forall₂_nil_right_iff.1 hdropped,
    List.append_nil]
  rfl

/-- The plural of a word in `s` is a plural unless a special rule had the word. -/
theorem pluralize_of_pluralInS {w plural : Text} (h : pluralInS.plural? w = some plural)
    (hspecial : ∀ r ∈ specialRules, r.plural? w = none) : pluralize plural = plural := by
  obtain ⟨t, ht, hends⟩ := isSpelled_pluralInS.exists_plural h
  have ht : t = "s".toList := List.mem_singleton.1 ht
  subst ht
  refine pluralize_of_special hends fun r hr => ?_
  by_contra hsome
  have hliteral := isLiteral_of_meets r hr (meets_of_special hr hends.isSuffix hsome)
  refine hsome ((plural?_eq_none_congr (isSpelled_of_special hr) hliteral ?_).1 (hspecial r hr))
  exact (isSpelled_pluralInS.folded_of_keeps (by decide) h).symm

/-- The plural of a word that ends in an irregular one is settled, three words apart. -/
theorem pluralize_of_irregular? {entry : String × String} (hentry : entry ∈ irregular)
    (hodd : entry.1 ∉ ["person", "man", "child"]) {w plural : Text}
    (h : irregular? entry w = some plural) : pluralize plural = plural := by
  have hspelled : ∀ entry ∈ irregular, entry.1 ∉ ["person", "man", "child"] →
      ∀ style ∈ styles, folded (style entry.2) = entry.2 ∧
        (style entry.2 = Text.upper entry.2 ∨ "s" <:+ style entry.2) := by
    decide
  obtain ⟨style, hstyle, front, -, rfl⟩ := exists_of_irregular? h
  obtain ⟨hfolded, hcase⟩ := hspelled entry hentry hodd style hstyle
  exact pluralize_of_isSettled (isSettled_irregular entry hentry hodd)
    ⟨front, style entry.2, rfl, nofun, hfolded, hcase⟩

theorem not_spellsSingular_of_irregular? {entry : String × String} (hentry : entry ∈ irregular)
    {w plural : Text} (h : irregular? entry w = some plural) : ¬ SpellsSingular w := by
  have hmeets : ∀ entry ∈ irregular, ∀ t ∈ singularEndings ++ singularWords,
      meet entry.1 t = false := by decide
  intro hw
  obtain ⟨t, ht, hend⟩ := hw.exists_suffix
  rw [irregular?_of_meet hentry hend (hmeets entry hentry t ht)] at h
  cases h

/-- The plural of a word counts as plural exactly if the word does not spell, with an `s` behind it,
what a rule has as a singular; words that end in one of three irregular ones are left aside. -/
theorem isPlural_pluralize_iff {w : Text} (hodd : ¬ HasOddPlural w) :
    isPlural (pluralize w) = true ↔ ¬ SpellsSingular w := by
  have hplural : isPlural (pluralize w) = true ↔ pluralize (pluralize w) = pluralize w :=
    decide_eq_true_iff
  rw [hplural]
  obtain ⟨hsame, hend⟩ | ⟨entry, hentry, h⟩ | ⟨r, hr, h⟩ | ⟨hspecial, h | ⟨hs, h⟩⟩ :=
    pluralize_cases w
  · refine iff_of_true (by rw [hsame, hsame]) fun hw => ?_
    obtain huncountable | hnone := hend
    · have hwords : ∀ word ∈ uncountable, ∀ t ∈ singularEndings ++ singularWords,
          meet word t = false := by decide
      obtain ⟨word, hword, hfolded⟩ := List.any_eq_true.1 huncountable
      have hfolded : folded w = word.toList := of_decide_eq_true hfolded
      exact not_spellsSingular_of_isSuffix ⟨[], hfolded.symm⟩ (hwords word hword) hw
    · exact anyLetter_of_spellsSingular hw hnone
  · have hregular : entry.1 ∉ ["person", "man", "child"] := by
      intro hmem
      obtain ⟨style, hstyle, front, hfront, -⟩ := exists_of_irregular? h
      exact hodd ⟨entry.1, hmem, style, hstyle, front, hfront.symm⟩
    exact iff_of_true (pluralize_of_irregular? hentry hregular h)
      (not_spellsSingular_of_irregular? hentry h)
  · have hmeets : ∀ r ∈ specialRules, ∀ u ∈ r.tails, ∀ t ∈ singularEndings ++ singularWords,
        meet u t = false := by decide
    obtain ⟨t, ht, hends⟩ := (isSpelled_of_special hr).exists_plural h
    obtain ⟨u, hu, hend, -⟩ := (isSpelled_of_special hr).exists_tail h
    exact iff_of_true (pluralize_of_isSettled (isSettled_plurals r hr t ht) hends)
      (not_spellsSingular_of_isSuffix hend (hmeets r hr u hu))
  · have hmeets : ∀ u ∈ pluralInS.tails, ∀ t ∈ singularEndings ++ singularWords,
        meet u t = false := by decide
    obtain ⟨u, hu, hend, -⟩ := isSpelled_pluralInS.exists_tail h
    exact iff_of_true (pluralize_of_pluralInS h hspecial)
      (not_spellsSingular_of_isSuffix hend (hmeets u hu))
  · have hfolded := folded_of_anyLetter h
    constructor
    · intro hkept hw
      obtain ⟨r, hr, hsome⟩ := exists_special_of_spellsSingular hfolded hw
      exact pluralize_ne_of_special ⟨_, hfolded.symm⟩ hr hsome hkept
    · intro hw
      obtain ⟨t, ht, hends⟩ := isSpelled_anyLetter.exists_plural h
      have ht : t = "s".toList := List.mem_singleton.1 ht
      subst ht
      refine pluralize_of_special hends fun r hr => by_contra fun hsome => hw ?_
      exact spellsSingular_of_special hfolded hspecial hs hr hsome

/-- A user has a plural; the plural of the zebu has one itself. -/
theorem isPlural_pluralize_of_zebu :
    (isPlural (pluralize "user") = true ∧ ¬ SpellsSingular "user".toList) ∧
      ¬ isPlural (pluralize "zebu") = true ∧ SpellsSingular "zebu".toList := by
  have huser : ¬ SpellsSingular "user".toList := by decide
  have hzebu : SpellsSingular "zebu".toList := by decide
  refine ⟨⟨(isPlural_pluralize_iff (w := "user") (by decide)).2 huser, huser⟩, ?_, hzebu⟩
  exact fun h => (isPlural_pluralize_iff (w := "zebu") (by decide)).1 h hzebu

/-- The plural in a bare `s` may look like a singular. -/
theorem zebus_is_singular : pluralize "zebu" = "zebus".toList ∧
    pluralize "zebus" = "zebuses".toList ∧ isPlural (pluralize "zebu") = false := by
  decide

end SchemaModels.Naming
