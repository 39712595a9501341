import SchemaModels.Proofs.Naming.PluralEndings

/-!
# Plurals in capitals

Whether a word has an ending depends on how its characters compare with the letters of the ending
and on nothing else, so a change of the characters that the comparison does not see changes nothing
but the spelling of what is kept (`stem?_map`). No capital stands for a small letter as it is
written and no small letter for a capital, so each rule makes the same plural of a word in small
letters and, in capitals, of this word in capitals (`plural?_upper`), and the first rule that has
one for the one spelling is the first for the other, too (`pluralize_upper`).
-/

namespace SchemaModels.Naming

open Letters (standsFor)

/-! ### Names in small letters -/

/-- The characters of names in small letters: letters, digits and separators. -/
def smallNameChars : Text := smallLetters ++ "0123456789_-. "

theorem mem_smallNameChars {x : Char} (h : x ∈ smallLetters) : x ∈ smallNameChars :=
  List.mem_append_left _ h

theorem foldLetter_of_small {c : Char} (h : c ∈ smallNameChars) : foldLetter c = c := by
  have hall : ∀ c ∈ smallNameChars, foldLetter c = c := List.all_iff_forall_prop.1 (by decide)
  exact hall c h

theorem foldLetter_toUpper {c : Char} (h : c ∈ smallNameChars) : foldLetter c.toUpper = c := by
  have hall : ∀ c ∈ smallNameChars, foldLetter c.toUpper = c :=
    List.all_iff_forall_prop.1 (by decide)
  exact hall c h

/-- A letter in capitals is not one in small letters. -/
theorem toUpper_ne {x c : Char} (hx : x ∈ smallLetters) (hc : c ∈ smallNameChars) :
    x.toUpper ≠ c ∧ x ≠ c.toUpper := by
  have hfirst : ∀ x ∈ smallLetters, x.toUpper ∉ smallNameChars :=
    List.all_iff_forall_prop.1 (by decide)
  have hlast : ∀ x ∈ smallLetters, x ∉ Text.upper smallNameChars :=
    List.all_iff_forall_prop.1 (by decide)
  exact ⟨fun h => hfirst x hx (h ▸ hc), fun h => hlast x hx (h ▸ List.mem_map_of_mem hc)⟩

/-- A name in small letters. -/
def IsSmallName (w : Text) : Prop := ∀ c ∈ w, c ∈ smallNameChars

instance (w : Text) : Decidable (IsSmallName w) := List.decidableBAll _ w

theorem IsSmallName.append {s t : Text} (hs : IsSmallName s) (ht : IsSmallName t) :
    IsSmallName (s ++ t) := List.forall_mem_append.2 ⟨hs, ht⟩

theorem IsSmallName.of_append {s t : Text} (h : IsSmallName (s ++ t)) :
    IsSmallName s ∧ IsSmallName t := List.forall_mem_append.1 h

theorem IsSmallName.map_foldLetter {w : Text} (hw : IsSmallName w) : w.map foldLetter = w :=
  calc w.map foldLetter
      = w.map id := List.map_congr_left fun c hc => foldLetter_of_small (hw c hc)
    _ = w := List.map_id w

theorem IsSmallName.map_foldLetter_upper {w : Text} (hw : IsSmallName w) :
    (Text.upper w).map foldLetter = w := by
  rw [Text.upper, List.map_map]
  calc w.map (foldLetter ∘ Char.toUpper)
      = w.map id := List.map_congr_left fun c hc => foldLetter_toUpper (hw c hc)
    _ = w := List.map_id w

theorem upper_inj {s t : Text} (hs : IsSmallName s) (ht : IsSmallName t) :
    Text.upper s = Text.upper t ↔ s = t := by
  refine ⟨fun h => ?_, congrArg Text.upper⟩
  rw [← hs.map_foldLetter_upper, h, ht.map_foldLetter_upper]

/-! ### Endings -/

/-- A change of the characters of a word that an ending does not see changes nothing but the
spelling of what is kept. -/
theorem stem?_map {e : Ending} {mode mode' : LetterCase} {f : Char → Char} {w : Text}
    (h : ∀ l ∈ e.kept ++ e.dropped, ∀ c ∈ w, l.allows mode' (f c) = l.allows mode c)
    (isWhole : Bool) :
    e.stem? mode' isWhole (w.map f) = (e.stem? mode isWhole w).map (·.map f) := by
  have hfits : ∀ tail : Text, (∀ c ∈ tail, c ∈ w) →
      (((tail.map f).zip (e.kept ++ e.dropped)).all fun p => p.2.allows mode' p.1) =
        ((tail.zip (e.kept ++ e.dropped)).all fun p => p.2.allows mode p.1) := by
    intro tail htail
    rw [List.zip_map_left, List.all_map, Bool.eq_iff_iff, List.all_eq_true, List.all_eq_true]
    refine forall₂_congr fun p hp => ?_
    obtain ⟨hc, hl⟩ := List.of_mem_zip hp
    exact iff_of_eq (congrArg (· = true) (h p.2 hl p.1 (htail p.1 hc)))
  have htail := hfits (w.drop (w.length - (e.kept ++ e.dropped).length)) fun c hc =>
    List.mem_of_mem_drop hc
  unfold Ending.stem?
  dsimp only
  rw [List.length_map, ← List.map_drop, htail, List.length_map, ← List.map_take, ← List.map_take,
    List.isEmpty_map]
  split <;> rfl

theorem Fits.exists_mem {mode : LetterCase} {t : Text} {ls : List Letters} (h : Fits mode t ls)
    {l : Letters} (hl : l ∈ ls) : ∃ c ∈ t, l.allows mode c = true := by
  induction h with
  | nil => cases hl
  | @cons c first t ls hfirst _ ih =>
      obtain rfl | hl := List.mem_cons.1 hl
      · exact ⟨c, List.mem_cons_self, hfirst⟩
      · obtain ⟨d, hd, hallows⟩ := ih hl
        exact ⟨d, List.mem_cons_of_mem c hd, hallows⟩

/-- A word does not have an ending of which one letter is nowhere in it. -/
theorem stem?_eq_none {e : Ending} {mode : LetterCase} {w : Text} {l : Letters}
    (hl : l ∈ e.kept ++ e.dropped) (h : ∀ c ∈ w, l.allows mode c = false) (isWhole : Bool) :
    e.stem? mode isWhole w = none := by
  refine Option.eq_none_iff_forall_ne_some.2 fun stem hstem => ?_
  obtain ⟨front, kept, dropped, rfl, -, hkept, hdropped, -⟩ := stem?_eq_some_iff.1 hstem
  obtain ⟨c, hc, hallows⟩ := (hkept.append hdropped).exists_mem hl
  rw [h c (List.mem_append_right front hc)] at hallows
  cases hallows

/-! ### Rules -/

theorem findSome?_congr {α β : Type} {f g : α → Option β} {as : List α}
    (h : ∀ a ∈ as, f a = g a) : as.findSome? f = as.findSome? g := by
  induction as with
  | nil => rfl
  | cons a as ih =>
      rw [List.findSome?_cons, List.findSome?_cons, h a List.mem_cons_self,
        ih fun b hb => h b (List.mem_cons_of_mem a hb)]

namespace PluralRule.IsSpelled

variable {r : PluralRule} (hr : r.IsSpelled) {mode mode' : LetterCase} {f : Char → Char} {w : Text}

include hr

theorem stem?_map (h : ∀ x ∈ smallLetters, ∀ c ∈ w, standsFor mode' x (f c) = standsFor mode x c) :
    r.stem? mode' (w.map f) = (r.stem? mode w).map (·.map f) := by
  unfold PluralRule.stem?
  rw [List.map_findSome?]
  refine findSome?_congr fun e he => ?_
  exact Naming.stem?_map (fun l hl c hc =>
    Letters.allows_congr (hr.small e he l hl) fun x hx => h x hx c hc) r.isWhole

theorem stem?_eq_none (h : ∀ x ∈ smallLetters, ∀ c ∈ w, standsFor mode x c = false) :
    r.stem? mode w = none := by
  unfold PluralRule.stem?
  rw [List.findSome?_eq_none_iff]
  intro e he
  obtain ⟨l, hl, hpositive⟩ := hr.positive e he
  exact Naming.stem?_eq_none hl (fun c hc =>
    Letters.allows_eq_false (hr.small e he l hl) hpositive fun x hx => h x hx c hc) r.isWhole

variable (hw : IsSmallName w)

include hw

/-- Of a name in small letters a rule has the plural as the rule is written. -/
theorem plural?_small : r.plural? w = r.pluralIn? .written w := by
  have hcapitals : r.stem? .capitals w = none := by
    refine hr.stem?_eq_none fun x hx c hc => ?_
    exact decide_eq_false (toUpper_ne hx (hw c hc)).1
  have hfolded : r.stem? .folded w = r.stem? .written w := by
    have hmap : r.stem? .folded (w.map id) = (r.stem? .written w).map (·.map id) :=
      hr.stem?_map fun x _ c hc => by simp [standsFor, foldLetter_of_small (hw c hc)]
    simpa using hmap
  have hsame : r.pluralIn? .folded w = r.pluralIn? .written w := by
    rw [pluralIn?_eq, pluralIn?_eq, hfolded]
    rfl
  rw [plural?, hsame, pluralIn?_eq, hcapitals]
  cases r.pluralIn? .written w <;> rfl

theorem isSmallName_plural {plural : Text} (h : r.plural? w = some plural) :
    IsSmallName plural := by
  rw [hr.plural?_small hw] at h
  obtain ⟨e, -, front, kept, dropped, rfl, rfl, -⟩ := exists_of_pluralIn? h
  rw [← List.append_assoc] at hw
  exact hw.of_append.1.append fun c hc => mem_smallNameChars (hr.added c hc)

/-- Of a name in capitals a rule has the plural in capitals. -/
theorem plural?_upper : r.plural? (Text.upper w) = (r.plural? w).map Text.upper := by
  have hcapitals : r.stem? .capitals (Text.upper w) = (r.stem? .written w).map Text.upper := by
    refine hr.stem?_map fun x hx c hc => ?_
    have hiff : x.toUpper = c.toUpper ↔ x = c := by
      have h := upper_inj (s := [x]) (t := [c]) (by simpa [IsSmallName] using mem_smallNameChars hx)
        (by simpa [IsSmallName] using hw c hc)
      simpa [Text.upper] using h
    simp [standsFor, hiff]
  have hwritten : r.stem? .written (Text.upper w) = none := by
    refine hr.stem?_eq_none fun x hx d hd => ?_
    obtain ⟨c, hc, rfl⟩ := List.mem_map.1 hd
    exact decide_eq_false (toUpper_ne hx (hw c hc)).2
  have hfolded : r.stem? .folded (Text.upper w) = (r.stem? .written w).map Text.upper := by
    refine hr.stem?_map fun x hx c hc => ?_
    simp [standsFor, foldLetter_toUpper (hw c hc)]
  rw [hr.plural?_small hw, plural?, pluralIn?_eq, pluralIn?_eq, pluralIn?_eq, pluralIn?_eq,
    hcapitals, hwritten, hfolded]
  cases r.stem? .written w with
  | none => rfl
  | some stem => simp [addedIn, Text.upper]

end PluralRule.IsSpelled

/-! ### Irregular words -/

/-- An irregular word with a character that the name cannot have is not what the name ends in. -/
theorem irregularIn?_eq_none {style : Text → Text} {entry : String × String} {w cs : Text}
    (hw : ∀ c ∈ w, c ∈ cs) (h : (style entry.1).any (fun c => c ∉ cs) = true) :
    irregularIn? style entry w = none := by
  obtain ⟨c, hc, hnot⟩ := List.any_iff_exists_prop.1 h
  refine if_neg fun (heq : w.take (w.length - entry.1.length) ++ style entry.1 = w) => ?_
  refine hnot (hw c ?_)
  rw [← heq]
  exact List.mem_append_right _ hc

section Irregular

variable {entry : String × String} (hentry : entry ∈ irregular) {w : Text} (hw : IsSmallName w)

include hentry hw

/-- Of a name in small letters an irregular word has the plural as the word is written. -/
theorem irregular?_small : irregular? entry w = irregularIn? id entry w := by
  have hcapitals : ∀ entry ∈ irregular,
      (Text.upper entry.1).any (fun c => c ∉ smallNameChars) = true := by decide
  have htitled : ∀ entry ∈ irregular,
      (titled entry.1).any (fun c => c ∉ smallNameChars) = true := by decide
  rw [irregular?_eq, irregularIn?_eq_none hw (hcapitals entry hentry),
    irregularIn?_eq_none hw (htitled entry hentry)]
  rfl

theorem isSmallName_irregular {plural : Text} (h : irregular? entry w = some plural) :
    IsSmallName plural := by
  have hplural : ∀ entry ∈ irregular, IsSmallName entry.2 := by decide
  rw [irregular?_small hentry hw, irregularIn?] at h
  split at h
  · cases h
    exact IsSmallName.append (fun c hc => hw c (List.mem_of_mem_take hc)) (hplural entry hentry)
  · cases h

/-- A name in capitals ends in a word in capitals as the name ends in the word. -/
theorem irregularIn?_upper :
    irregularIn? Text.upper entry (Text.upper w) = (irregularIn? id entry w).map Text.upper := by
  have hsmall : ∀ entry ∈ irregular, IsSmallName entry.1 := by decide
  have hfront : IsSmallName (w.take (w.length - entry.1.length)) := fun c hc =>
    hw c (List.mem_of_mem_take hc)
  have hiff := upper_inj (hfront.append (hsmall entry hentry)) hw
  unfold irregularIn?
  simp only [Text.upper, List.length_map, ← List.map_take, ← List.map_append] at hiff ⊢
  simp only [hiff, id]
  split <;> rfl

/-- Of a name in capitals an irregular word has the plural in capitals. -/
theorem irregular?_upper :
    irregular? entry (Text.upper w) = (irregular? entry w).map Text.upper := by
  have htitled : ∀ entry ∈ irregular,
      (titled entry.1).any (fun c => c ∉ Text.upper smallNameChars) = true := by decide
  have hwritten : ∀ entry ∈ irregular,
      entry.1.toList.any (fun c => c ∉ Text.upper smallNameChars) = true := by decide
  have hupper : ∀ c ∈ Text.upper w, c ∈ Text.upper smallNameChars := by
    intro c hc
    obtain ⟨d, hd, rfl⟩ := List.mem_map.1 hc
    exact List.mem_map_of_mem (hw d hd)
  rw [irregular?_eq, irregularIn?_upper hentry hw,
    irregularIn?_eq_none hupper (htitled entry hentry),
    irregularIn?_eq_none hupper (hwritten entry hentry), irregular?_small hentry hw]
  cases irregularIn? id entry w <;> rfl

end Irregular

/-! ### Plurals -/

section Plurals

variable {w : Text} (hw : IsSmallName w)

include hw

theorem isUncountable_upper : isUncountable (Text.upper w) = isUncountable w := by
  unfold isUncountable
  rw [hw.map_foldLetter, hw.map_foldLetter_upper]

theorem isSmallName_pluralize : IsSmallName (pluralize w) := by
  unfold pluralize
  split
  · exact hw
  cases hirregular : irregular.findSome? (irregular? · w) with
  | some plural =>
      obtain ⟨entry, hentry, hplural⟩ := List.exists_of_findSome?_eq_some hirregular
      exact isSmallName_irregular hentry hw hplural
  | none =>
      cases hregular : pluralRules.findSome? (·.plural? w) with
      | some plural =>
          obtain ⟨r, hr, hplural⟩ := List.exists_of_findSome?_eq_some hregular
          exact (isSpelled_of_mem hr).isSmallName_plural hw hplural
      | none => exact hw

theorem pluralize_upper_eq : pluralize (Text.upper w) = Text.upper (pluralize w) := by
  have hirregular : irregular.findSome? (irregular? · (Text.upper w)) =
      (irregular.findSome? (irregular? · w)).map Text.upper := by
    rw [List.map_findSome?]
    exact findSome?_congr fun entry hentry => irregular?_upper hentry hw
  have hregular : pluralRules.findSome? (·.plural? (Text.upper w)) =
      (pluralRules.findSome? (·.plural? w)).map Text.upper := by
    rw [List.map_findSome?]
    exact findSome?_congr fun r hr => (isSpelled_of_mem hr).plural?_upper hw
  unfold pluralize
  rw [isUncountable_upper hw, hirregular, hregular]
  split
  · rfl
  · cases irregular.findSome? (irregular? · w) with
    | some plural => rfl
    | none => cases pluralRules.findSome? (·.plural? w) <;> rfl

end Plurals

/-- A name in capitals has the plural that it has in small letters, in capitals, and it counts as
plural exactly if it does so in small letters. -/
theorem pluralize_upper (w : Text) (hw : IsSmallName w) :
    pluralize (Text.upper w) = Text.upper (pluralize w) ∧
      isPlural (Text.upper w) = isPlural w := by
  refine ⟨pluralize_upper_eq hw, ?_⟩
  unfold isPlural
  rw [pluralize_upper_eq hw]
  exact decide_eq_decide.2 (upper_inj (isSmallName_pluralize hw) hw)

/-- A name with all kinds of characters, of which a letter outside the vowels is followed by `y`. -/
theorem pluralize_upper_of_countries : IsSmallName "log2_cou.nt-ry" ∧
    pluralize "LOG2_COU.NT-RY" = "LOG2_COU.NT-RIES" ∧
    isPlural "LOG2_COU.NT-RY" = false := by
  have hname : IsSmallName "log2_cou.nt-ry" := by decide
  obtain ⟨hplural, hcounts⟩ := pluralize_upper "log2_cou.nt-ry" hname
  exact ⟨hname, hplural.trans (by decide), hcounts.trans (by decide)⟩

end SchemaModels.Naming
