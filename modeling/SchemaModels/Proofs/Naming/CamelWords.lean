import Mathlib.Data.List.SplitBy
import SchemaModels.Proofs.Naming.LeftToRight
import SchemaModels.Proofs.Text.Parts

/-!
# Camel case word by word

The characters that are no letters, digits or separators can be deleted before a name is cut into
runs of letters, each of which is written as a word (`wordwise`). The same name comes out, unless a
deleted character stands in front of a word's first letter: that letter stays small.
`camel_word_by_word` says that nothing else makes a difference.
-/

namespace SchemaModels.Naming

/-! ### Runs of letters -/

/-- The characters of a name that are not deleted. -/
def isNameChar (c : Char) : Bool := Text.isLetter c || isMark c

/-- The longest runs of letters, with every other character on its own. -/
def runs (t : Text) : List Text := t.splitBy fun c d => Text.isLetter c && Text.isLetter d

/-- A word with a capital in front. -/
def capitalize : Text → Text
  | [] => []
  | c :: w => c.toUpper :: w

/-- How a run is written: a word in capitals if it is an acronym and with a capital in front if it
is not, a digit as it is, a separator not at all. -/
def runText (a : Acronyms) (run : Text) : Text :=
  if run.all Text.isLetter then
    if a.contains run then Text.upper run else capitalize run
  else run.filter Char.isDigit

def wordwise (a : Acronyms) (name : Text) : Text :=
  (runs ((Text.trim name).filter isNameChar)).flatMap (runText a)

theorem runText_nil (a : Acronyms) : runText a [] = [] := by
  unfold runText
  split
  · split <;> rfl
  · rfl

/-- A digit or a separator is a run of its own. -/
theorem runs_mark {c : Char} (hc : isMark c = true) (t : Text) :
    runs (c :: t) = [c] :: runs t := by
  have happend : runs ([c] ++ t) = runs [c] ++ runs t :=
    List.splitBy_append (by simp [isLetter_of_isMark hc])
  rw [List.singleton_append] at happend
  rw [happend]
  rfl

/-- Letters up to a digit or a separator are one run. -/
theorem runs_letters {w : Text} (hne : w ≠ []) (hw : w.all Text.isLetter = true) {t : Text}
    (ht : ∀ c ∈ t.head?, isMark c = true) : runs (w ++ t) = w :: runs t := by
  have hletter := List.all_eq_true.1 hw
  have hchain : w.IsChain fun c d => (Text.isLetter c && Text.isLetter d) = true :=
    List.Pairwise.isChain (List.pairwise_of_forall_mem_list fun c hc d hd => by
      rw [hletter c hc, hletter d hd, Bool.and_self])
  have happend : runs (w ++ t) = runs w ++ runs t :=
    List.splitBy_append fun c _ d hd => by simp [isLetter_of_isMark (ht d hd)]
  rw [happend]
  exact congrArg (· ++ runs t) (List.splitBy_of_isChain hne hchain)

/-- Characters up to a digit or a separator are one stretch. -/
theorem pieces_word {w : Text} (hne : w ≠ []) (hw : ∀ c ∈ w, isMark c = false) {t : Text}
    (ht : ∀ c ∈ t.head?, isMark c = true) : pieces (w ++ t) = .word w :: pieces t := by
  induction w with
  | nil => exact absurd rfl hne
  | cons c w ih =>
      have hc := hw c List.mem_cons_self
      rw [List.cons_append, pieces, if_neg (by simpa [isMark] using hc)]
      cases w with
      | nil =>
          cases t with
          | nil => rfl
          | cons d t => rw [List.nil_append, pieces_mark (ht d rfl)]
      | cons d w =>
          rw [ih (List.cons_ne_nil d w) fun e he => hw e (List.mem_cons_of_mem c he)]

/-! ### Deleting first -/

/-- How a stretch is written where its dropped characters are deleted first. -/
def Piece.wordText (a : Acronyms) : Piece → Text
  | .word w => runText a (w.filter Text.isLetter)
  | .mark c => runText a [c]

section Stretch

variable (a : Acronyms) {w u : Text} (hw : ∀ c ∈ w, isMark c = false)
  (hu : ∀ c ∈ u.head?, isMark c = true)

include hw hu

/-- The letters of a stretch are written as one word. -/
theorem runs_stretch : (runs ((w ++ u).filter isNameChar)).flatMap (runText a) =
    runText a (w.filter Text.isLetter) ++ (runs (u.filter isNameChar)).flatMap (runText a) := by
  have hfilter : w.filter isNameChar = w.filter Text.isLetter :=
    List.filter_congr fun c hc => by rw [isNameChar, hw c hc, Bool.or_false]
  rw [List.filter_append, hfilter]
  by_cases hne : w.filter Text.isLetter = []
  · rw [hne, runText_nil]
    rfl
  · have hhead : ∀ c ∈ (u.filter isNameChar).head?, isMark c = true := by
      intro c hc
      cases u with
      | nil => cases hc
      | cons d u =>
          have hd := hu d rfl
          rw [List.filter_cons_of_pos (by simp [isNameChar, hd])] at hc
          cases hc
          exact hd
    rw [runs_letters hne (by simp) hhead, List.flatMap_cons]

theorem flatMap_pieces_stretch : (pieces (w ++ u)).flatMap (Piece.wordText a) =
    runText a (w.filter Text.isLetter) ++ (pieces u).flatMap (Piece.wordText a) := by
  by_cases hne : w = []
  · subst hne
    rw [List.filter_nil, runText_nil]
    rfl
  · rw [pieces_word hne hw hu]
    rfl

end Stretch

/-- Deleting characters first changes nothing but how a stretch is written. -/
theorem flatMap_runs (a : Acronyms) (t : Text) :
    (runs (t.filter isNameChar)).flatMap (runText a) = (pieces t).flatMap (Piece.wordText a) := by
  obtain hall | ⟨w, c, u, rfl, hw, hc⟩ := Text.all_or_exists_first (!isMark ·) t
  · have hall' : ∀ c ∈ t, isMark c = false := by simpa using hall
    have hruns := runs_stretch a hall' (u := []) nofun
    have hpieces := flatMap_pieces_stretch a hall' (u := []) nofun
    rw [List.append_nil] at hruns hpieces
    rw [hruns, hpieces]
    rfl
  · have hw' : ∀ d ∈ w, isMark d = false := by simpa using hw
    have hc' : isMark c = true := by simpa using hc
    have hhead : ∀ d ∈ (c :: u).head?, isMark d = true := by simpa using hc'
    have hrest := flatMap_runs a u
    rw [runs_stretch a hw' hhead, flatMap_pieces_stretch a hw' hhead,
      List.filter_cons_of_pos (by simp [isNameChar, hc']), runs_mark hc', pieces_mark hc',
      List.flatMap_cons, List.flatMap_cons, hrest]
    rfl
termination_by t.length
decreasing_by
  subst_vars
  simp
  omega

/-! ### Words that lose their capital -/

/-- A dropped character in front of a word keeps its first letter from becoming a capital. -/
def LosesCapital (a : Acronyms) (w : Text) : Prop :=
  w.head?.any Text.isLetter = false ∧ (w.filter Text.isLetter).head?.any Char.isLower = true ∧
    a.contains (w.filter Text.isLetter) = false

instance (a : Acronyms) (w : Text) : Decidable (LosesCapital a w) :=
  inferInstanceAs (Decidable (_ ∧ _))

/-- The stretches of a name that are no digits and no separators. -/
def stretches (name : Text) : List Text :=
  (pieces (Text.trim name)).filterMap fun
    | .word w => some w
    | .mark _ => none

theorem mem_stretches {name w : Text} : w ∈ stretches name ↔ .word w ∈ pieces (Text.trim name) := by
  unfold stretches
  rw [List.mem_filterMap]
  constructor
  · rintro ⟨p, hp, hw⟩
    split at hw
    · cases hw
      exact hp
    · cases hw
  · exact fun hp => ⟨_, hp, rfl⟩

theorem contains_capitalize (a : Acronyms) (w : Text) :
    a.contains (capitalize w) = a.contains w := by
  cases w with
  | nil => rfl
  | cons c w => simp [Acronyms.contains, capitalize, Text.upper, Text.toUpper_toUpper]

theorem upper_capitalize (w : Text) : Text.upper (capitalize w) = Text.upper w := by
  cases w with
  | nil => rfl
  | cons c w => simp [capitalize, Text.upper, Text.toUpper_toUpper]

theorem runText_letters (a : Acronyms) (w : Text) :
    runText a (w.filter Text.isLetter) = a.spell (capitalize (w.filter Text.isLetter)) := by
  unfold runText Acronyms.spell
  rw [if_pos (by simp), contains_capitalize, upper_capitalize]

/-- The letters of a stretch with a capital in front, if a letter comes first in it, and as they
are, if not. -/
theorem capitalized_eq (w : Text) : capitalized w =
    if w.head?.any Text.isLetter then capitalize (w.filter Text.isLetter)
    else w.filter Text.isLetter := by
  cases w with
  | nil => rfl
  | cons c w =>
      cases hc : Text.isLetter c <;> simp [capitalized, capitalize, hc, Text.isLetter_toUpper_eq]

theorem length_spell (a : Acronyms) (w : Text) : (a.spell w).length = w.length := by
  unfold Acronyms.spell Text.upper
  split
  · exact List.length_map _
  · rfl

theorem length_capitalize (w : Text) : (capitalize w).length = w.length := by
  cases w <;> rfl

theorem wordText_mark (a : Acronyms) {c : Char} (hc : isMark c = true) :
    Piece.wordText a (.mark c) = Piece.text a (.mark c) := by
  have hletters : [c].all Text.isLetter = false := by simp [isLetter_of_isMark hc]
  cases hdigit : c.isDigit <;> simp [Piece.wordText, Piece.text, runText, hletters, hdigit]

theorem length_text_eq (a : Acronyms) (w : Text) :
    (Piece.text a (.word w)).length = (Piece.wordText a (.word w)).length := by
  rw [Piece.text, Piece.wordText, runText_letters, length_spell, length_spell, capitalized_eq,
    length_capitalize]
  split
  · exact length_capitalize _
  · rfl

/-- Where the dropped characters are deleted first, every word begins with a capital. -/
theorem head_wordText (a : Acronyms) (w : Text) :
    (Piece.wordText a (.word w)).head?.all Char.isUpper = true := by
  rw [Piece.wordText, runText_letters]
  cases hw : w.filter Text.isLetter with
  | nil => rw [capitalize, spell_nil]; rfl
  | cons c r =>
      have hletter : Text.isLetter c = true :=
        (List.mem_filter.1 (hw ▸ List.mem_cons_self : c ∈ w.filter Text.isLetter)).2
      unfold Acronyms.spell
      split <;>
        simp [capitalize, Text.upper, Text.toUpper_toUpper, Text.isUpper_toUpper hletter]

/-- A word is written as it would be without its dropped characters, or else it has lost its
capital. -/
theorem text_word_cases (a : Acronyms) (w : Text) :
    (Piece.text a (.word w) = Piece.wordText a (.word w) ∧ ¬ LosesCapital a w) ∨
      ∃ c r, Piece.text a (.word w) = c :: r ∧ Piece.wordText a (.word w) = c.toUpper :: r ∧
        c.isLower = true ∧ LosesCapital a w := by
  rw [Piece.text, Piece.wordText, runText_letters, capitalized_eq]
  cases hhead : w.head?.any Text.isLetter with
  | true => exact Or.inl ⟨rfl, fun h => by simp [LosesCapital, hhead] at h⟩
  | false =>
      rw [if_neg (by simp)]
      cases hcontains : a.contains (w.filter Text.isLetter) with
      | true =>
          refine Or.inl ⟨?_, fun h => by simp [LosesCapital, hcontains] at h⟩
          rw [Acronyms.spell, Acronyms.spell, contains_capitalize, hcontains, if_pos rfl,
            if_pos rfl, upper_capitalize]
      | false =>
          rw [Acronyms.spell, Acronyms.spell, contains_capitalize, hcontains]
          cases hw : w.filter Text.isLetter with
          | nil => exact Or.inl ⟨rfl, fun h => by simp [LosesCapital, hw] at h⟩
          | cons c r =>
              cases hlower : c.isLower with
              | true =>
                  rw [hw] at hcontains
                  exact Or.inr ⟨c, r, rfl, rfl, hlower,
                    by simp [LosesCapital, hhead, hw, hcontains, hlower]⟩
              | false =>
                  have hupper := (Text.toUpper_eq_self_iff c).2 hlower
                  refine Or.inl ⟨?_, fun h => by simp [LosesCapital, hw, hlower] at h⟩
                  simp [capitalize, hupper]

theorem text_eq_wordText_iff (a : Acronyms) (w : Text) :
    Piece.text a (.word w) = Piece.wordText a (.word w) ↔ ¬ LosesCapital a w := by
  obtain ⟨heq, hkeeps⟩ | ⟨c, r, htext, hword, hlower, hloses⟩ := text_word_cases a w
  · exact iff_of_true heq hkeeps
  · refine iff_of_false (fun heq => ?_) (not_not_intro hloses)
    rw [htext, hword] at heq
    rw [(Text.toUpper_eq_self_iff c).1 (List.cons.inj heq).1.symm] at hlower
    cases hlower

/-- A word begins with a capital exactly if it has not lost it. -/
theorem head_text_iff (a : Acronyms) (w : Text) :
    (Piece.text a (.word w)).head?.all Char.isUpper = true ↔ ¬ LosesCapital a w := by
  obtain ⟨heq, hkeeps⟩ | ⟨c, r, htext, -, hlower, hloses⟩ := text_word_cases a w
  · exact iff_of_true (heq ▸ head_wordText a w) hkeeps
  · refine iff_of_false (fun hupper => ?_) (not_not_intro hloses)
    rw [htext] at hupper
    rw [Text.isLower_of_isUpper (by simpa using hupper)] at hlower
    cases hlower

/-- Texts put together from equally long pieces are equal only if the pieces are. -/
theorem flatMap_eq_iff {α : Type} {f g : α → Text} {as : List α}
    (h : ∀ a ∈ as, (f a).length = (g a).length) :
    as.flatMap f = as.flatMap g ↔ ∀ a ∈ as, f a = g a := by
  induction as with
  | nil => simp
  | cons a as ih =>
      rw [List.flatMap_cons, List.flatMap_cons, List.forall_mem_cons,
        ← ih fun b hb => h b (List.mem_cons_of_mem a hb)]
      constructor
      · exact fun heq => List.append_inj heq (h a List.mem_cons_self)
      · rintro ⟨ha, has⟩
        rw [ha, has]

theorem isMark_of_mem_pieces {c : Char} {t : Text} (h : .mark c ∈ pieces t) : isMark c = true := by
  induction t with
  | nil => cases h
  | cons d t ih =>
      cases hd : isMark d with
      | true =>
          rw [pieces_mark hd] at h
          obtain h | h := List.mem_cons.1 h
          · cases h
            exact hd
          · exact ih h
      | false =>
          rw [pieces, if_neg (by simpa [isMark] using hd)] at h
          split at h
          · rename_i ps hps
            exact ih (hps ▸ List.mem_cons_of_mem _ (by simpa using h))
          · exact ih (by simpa using h)

theorem camel_eq_wordwise_iff (a : Acronyms) (name : Text) :
    camel a name = wordwise a name ↔ ∀ w ∈ stretches name, ¬ LosesCapital a w := by
  have hmark : ∀ c, .mark c ∈ pieces (Text.trim name) →
      Piece.text a (.mark c) = Piece.wordText a (.mark c) := fun c hc =>
    (wordText_mark a (isMark_of_mem_pieces hc)).symm
  have hlength : ∀ p ∈ pieces (Text.trim name), (p.text a).length = (p.wordText a).length := by
    intro p hp
    cases p with
    | word w => exact length_text_eq a w
    | mark c => rw [hmark c hp]
  rw [camel, wordwise, flatMap_runs, flatMap_eq_iff hlength]
  constructor
  · exact fun h w hw => (text_eq_wordText_iff a w).1 (h _ (mem_stretches.1 hw))
  · intro h p hp
    cases p with
    | word w => exact (text_eq_wordText_iff a w).2 (h w (mem_stretches.2 hp))
    | mark c => exact hmark c hp

theorem isMark_of_isLetter {c : Char} (h : Text.isLetter c = true) : isMark c = false := by
  refine Bool.eq_false_iff.2 fun hmark => ?_
  rw [isLetter_of_isMark hmark] at h
  cases h

/-- A name that begins with a letter begins with a stretch that does. -/
theorem pieces_letter {c : Char} (h : Text.isLetter c = true) (t : Text) :
    ∃ w ps, pieces (c :: t) = .word (c :: w) :: ps := by
  rw [pieces, if_neg (by simpa [isMark] using isMark_of_isLetter h)]
  split
  · exact ⟨_, _, rfl⟩
  · exact ⟨[], _, rfl⟩

/-- A stretch that begins with a letter is written with a capital in front. -/
theorem text_letter (a : Acronyms) {c : Char} (h : Text.isLetter c = true) (w : Text) :
    ∃ d u, Piece.text a (.word (c :: w)) = d :: u ∧ d.isUpper = true := by
  have hkeeps : ¬ LosesCapital a (c :: w) := fun hloses => by
    simp [LosesCapital, h] at hloses
  have hupper := (head_text_iff a (c :: w)).2 hkeeps
  have hlength : (Piece.text a (.word (c :: w))).length ≠ 0 := by
    rw [Piece.text, length_spell]
    simp [capitalized, Text.isLetter_toUpper_eq, h]
  cases htext : Piece.text a (.word (c :: w)) with
  | nil => exact absurd (congrArg List.length htext) hlength
  | cons d u =>
      rw [htext] at hupper
      exact ⟨d, u, rfl, by simpa using hupper⟩

/-- A name that begins with a letter is exported. -/
theorem head_camel (a : Acronyms) {name : Text}
    (h : (Text.trim name).head?.any Text.isLetter = true) :
    (camel a name).head?.any Char.isUpper = true := by
  cases hname : Text.trim name with
  | nil =>
      rw [hname] at h
      cases h
  | cons c t =>
      rw [hname] at h
      have hletter : Text.isLetter c = true := h
      obtain ⟨w, ps, hpieces⟩ := pieces_letter hletter t
      obtain ⟨d, u, htext, hupper⟩ := text_letter a hletter w
      rw [camel, hname, hpieces, List.flatMap_cons, htext]
      exact hupper

/-- A name is written as it is read from left to right. It is the one that its runs of letters give
exactly if no stretch loses its capital, and a word begins with a capital exactly if its stretch has
not lost it. So what begins with a letter is exported. -/
theorem camel_word_by_word (a : Acronyms) (name : Text) :
    camel a name = scanned a name ∧
      (camel a name = wordwise a name ↔ ∀ w ∈ stretches name, ¬ LosesCapital a w) ∧
      (∀ w ∈ stretches name,
        (Piece.text a (.word w)).head?.all Char.isUpper = true ↔ ¬ LosesCapital a w) ∧
      ((Text.trim name).head?.any Text.isLetter = true →
        (camel a name).head?.any Char.isUpper = true) :=
  ⟨camel_eq_scanned a name, camel_eq_wordwise_iff a name, fun w _ => head_text_iff a w,
    head_camel a⟩

/-- A name with separators, digits and characters that are dropped, none of them in front of a
letter that would begin a word. -/
def streetName : Text := " street-númber2_b.ip€$ "

theorem camel_word_by_word_of_streetName :
    camel .standard streetName = "StreetNmber2BIP" ∧
      camel .standard streetName = wordwise .standard streetName ∧
      (camel .standard streetName).head?.any Char.isUpper = true := by
  obtain ⟨-, hwords, -, hexported⟩ := camel_word_by_word .standard streetName
  exact ⟨by decide, hwords.2 (by decide), hexported (by decide)⟩

/-- A character that is dropped stands where the word would begin. -/
theorem capital_behind_dollar_is_lost :
    camel .standard "$cost" = "cost" ∧ wordwise .standard "$cost" = "Cost" := by decide

end SchemaModels.Naming
