import SchemaModels.Proofs.Go.LineRuns
import SchemaModels.Proofs.Text.Ends

/-!
# Blanks between words

How many blanks stand between words and at the end of a line, and which ones, does not matter to a
scanner: where two lines differ in that only (`Respaced`), they end in the same state, whatever the
blanks are part of (`scanLine_respaced`). Neither do the blanks at the beginning of a line of code
(`leads_respaced`).
-/

namespace SchemaModels.Go.Format

/-! ### The word in front of a bracket -/

/-- The letters of the word that opens the body of a struct. -/
def isStructLetter (c : Char) : Bool := "struct".toList.contains c

theorem isStructLetter_of_isBlank {c : Char} (h : Text.isBlank c = true) :
    isStructLetter c = false := by
  have hletters : c ∉ "struct".toList := Text.not_mem_of_any h (by decide)
  simpa [isStructLetter] using hletters

theorem isPrefix_takeWhile_iff {p : Char → Bool} {s : Text} (hs : s.all p = true) (t : Text) :
    s <+: t.takeWhile p ↔ s <+: t := by
  constructor
  · exact fun h => h.trans (List.takeWhile_prefix p)
  · rintro ⟨u, rfl⟩
    rw [List.takeWhile_append_of_pos (List.all_eq_true.1 hs)]
    exact List.prefix_append s _

theorem endsInStruct_eq (before : Text) : endsInStruct before =
    "tcurts".toList.isPrefixOf ((before.dropWhile Text.isBlank).takeWhile isStructLetter) := by
  rw [Bool.eq_iff_iff, endsInStruct, List.isPrefixOf_iff_prefix, List.isPrefixOf_iff_prefix]
  exact (isPrefix_takeWhile_iff (by decide) _).symm

/-- The texts, given backwards, go on alike as far as the word in front of a bracket is concerned:
they end in the same letters, and so they do without the blanks at the end. -/
structure EndsAlike (before before' : Text) : Prop where
  letters : before.takeWhile isStructLetter = before'.takeWhile isStructLetter
  word : (before.dropWhile Text.isBlank).takeWhile isStructLetter =
    (before'.dropWhile Text.isBlank).takeWhile isStructLetter

theorem EndsAlike.refl (before : Text) : EndsAlike before before := ⟨rfl, rfl⟩

theorem EndsAlike.endsInStruct_eq {before before' : Text} (h : EndsAlike before before') :
    endsInStruct before = endsInStruct before' := by
  rw [Format.endsInStruct_eq, Format.endsInStruct_eq, h.word]

theorem EndsAlike.cons {before before' : Text} (h : EndsAlike before before') (c : Char) :
    EndsAlike (c :: before) (c :: before') := by
  have hletters : (c :: before).takeWhile isStructLetter =
      (c :: before').takeWhile isStructLetter := by
    rw [List.takeWhile_cons, List.takeWhile_cons, h.letters]
  refine ⟨hletters, ?_⟩
  cases hc : Text.isBlank c with
  | true =>
      rw [List.dropWhile_cons_of_pos hc, List.dropWhile_cons_of_pos hc]
      exact h.word
  | false =>
      rw [List.dropWhile_cons_of_neg (by simp [hc]), List.dropWhile_cons_of_neg (by simp [hc])]
      exact hletters

theorem takeWhile_isStructLetter_blanks {s : Text} (hs : s.all Text.isBlank = true) (hne : s ≠ [])
    (t : Text) : (s ++ t).takeWhile isStructLetter = [] := by
  cases s with
  | nil => exact absurd rfl hne
  | cons c s =>
      have hc := isStructLetter_of_isBlank (List.all_eq_true.1 hs c List.mem_cons_self)
      rw [List.cons_append, List.takeWhile_cons_of_neg (by simp [hc])]

theorem dropWhile_isBlank_blanks {s : Text} (hs : s.all Text.isBlank = true) (t : Text) :
    (s ++ t).dropWhile Text.isBlank = t.dropWhile Text.isBlank :=
  List.dropWhile_append_of_pos (List.all_eq_true.1 hs)

/-- Blanks that are put behind both texts part the letters from those that follow. -/
theorem EndsAlike.blanks {before before' s s' : Text} (h : EndsAlike before before')
    (hs : s.all Text.isBlank = true) (hne : s ≠ []) (hs' : s'.all Text.isBlank = true)
    (hne' : s' ≠ []) : EndsAlike (s ++ before) (s' ++ before') := by
  constructor
  · rw [takeWhile_isStructLetter_blanks hs hne, takeWhile_isStructLetter_blanks hs' hne']
  · rw [dropWhile_isBlank_blanks hs, dropWhile_isBlank_blanks hs']
    exact h.word

/-- A backquote parts them as well as a backquote with blanks behind it. -/
theorem endsAlike_backquote {s : Text} (hs : s.all Text.isBlank = true) (before before' : Text) :
    EndsAlike ('\x60' :: before) (s ++ '\x60' :: before') := by
  have hback : Text.isBlank '\x60' = false := by decide
  have hletter : isStructLetter '\x60' = false := by decide
  constructor
  · cases s with
    | nil => simp [hletter]
    | cons c s =>
        rw [takeWhile_isStructLetter_blanks hs (List.cons_ne_nil c s)]
        simp [hletter]
  · rw [dropWhile_isBlank_blanks hs]
    simp [hback, hletter]

theorem endsAlike_of_blanks {s s' : Text} (hs : s.all Text.isBlank = true)
    (hs' : s'.all Text.isBlank = true) : EndsAlike s s' := by
  have hletters : ∀ {u : Text}, u.all Text.isBlank = true → u.takeWhile isStructLetter = [] := by
    intro u hu
    cases u with
    | nil => rfl
    | cons c u => simpa using takeWhile_isStructLetter_blanks hu (List.cons_ne_nil c u) []
  constructor
  · rw [hletters hs, hletters hs']
  · rw [Text.dropWhile_of_all hs, Text.dropWhile_of_all hs']

/-! ### One character -/

/-- What a scanner waits for: inside a mark of two characters, the second one comes next. -/
def Mode.Awaits (next : Option Char) : Mode → Prop
  | .opening => next = some '*'
  | .closing => next = some '/'
  | _ => True

theorem awaits_after (m : Mode) (c : Char) (next : Option Char) : (m.after c next).Awaits next := by
  cases m with
  | code =>
      unfold Mode.after codeMode
      repeat' split
      all_goals simp_all [Mode.Awaits]
  | literal q escaped =>
      cases escaped with
      | true => trivial
      | false =>
          simp only [Mode.after]
          repeat' split
          all_goals trivial
  | rawString =>
      simp only [Mode.after]
      split <;> trivial
  | blockComment =>
      simp only [Mode.after]
      split
      · rename_i h
        exact h.2
      · trivial
  | _ => trivial

theorem step_mode {before : Text} {s s' : State} {c : Char} {next : Option Char}
    (h : step before s c next = .ok s') : s'.mode = s.mode.after c next := by
  rw [step_eq] at h
  obtain ⟨stack, -, rfl⟩ := map_eq_ok_iff.1 h
  rfl

/-- A step looks at the next character only for a slash or an asterisk. -/
theorem after_congr {next next' : Option Char}
    (h : ∀ d, Text.isBlank d = false → (next = some d ↔ next' = some d)) (m : Mode) (c : Char) :
    m.after c next = m.after c next' := by
  have hslash := h '/' (by decide)
  have hstar := h '*' (by decide)
  unfold Mode.after codeMode
  cases m with
  | code => simp only [hslash, hstar]
  | blockComment => simp only [hslash]
  | literal q escaped => cases escaped <;> rfl
  | _ => rfl

theorem bracket_congr {before before' : Text} (h : EndsAlike before before') (stack : List Open)
    (c : Char) : bracket before stack c = bracket before' stack c := by
  unfold bracket
  rw [h.endsInStruct_eq]

theorem step_congr {before before' : Text} (hbefore : EndsAlike before before') (s : State)
    (c : Char) {next next' : Option Char} (hmode : s.mode.after c next = s.mode.after c next') :
    step before s c next = step before' s c next' := by
  rw [step_eq, step_eq, bracket_congr hbefore, hmode]

/-! ### Blanks -/

/-- The mode behind a blank. -/
def Mode.blank : Mode → Mode
  | .literal q _ => .literal q false
  | .opening => .blockComment
  | .closing => .code
  | m => m

theorem ne_of_isBlank {c d : Char} (hc : Text.isBlank c = true) (hd : Text.isBlank d = false) :
    c ≠ d := by
  rintro rfl
  rw [hc] at hd
  cases hd

theorem after_of_isBlank {c : Char} (hc : Text.isBlank c = true) (next : Option Char) (m : Mode) :
    m.after c next = m.blank := by
  have hback := ne_of_isBlank hc (d := '\\') (by decide)
  have hraw := ne_of_isBlank hc (d := '\x60') (by decide)
  have hdouble := ne_of_isBlank hc (d := '"') (by decide)
  have hsingle := ne_of_isBlank hc (d := '\'') (by decide)
  have hslash := ne_of_isBlank hc (d := '/') (by decide)
  have hstar := ne_of_isBlank hc (d := '*') (by decide)
  cases m with
  | literal q escaped =>
      cases escaped with
      | true => rfl
      | false => cases q <;> simp [Mode.after, Mode.blank, Quote.char, hback, hdouble, hsingle]
  | _ => simp [Mode.after, codeMode, Mode.blank, hraw, hdouble, hsingle, hslash, hstar]

theorem bracket_of_isBlank {c : Char} (hc : Text.isBlank c = true) (before : Text)
    (stack : List Open) : bracket before stack c = .ok stack := by
  have hmarks : c ∉ ['(', '[', '{', ')', ']', '}'] := Text.not_mem_of_any hc (by decide)
  simp only [List.mem_cons, List.not_mem_nil, or_false, not_or] at hmarks
  simp [bracket, Bracket.opened?, isClosing, hmarks]

theorem step_of_isBlank {c : Char} (hc : Text.isBlank c = true) (before : Text) (s : State)
    (next : Option Char) : step before s c next = .ok ⟨s.mode.blank, s.stack⟩ := by
  rw [step_eq, bracket_of_isBlank hc, after_of_isBlank hc, ite_self]
  rfl

theorem blank_blank (m : Mode) : m.blank.blank = m.blank := by
  cases m <;> rfl

theorem scanLine_gap {s : Text} (hs : s.all Text.isBlank = true) (hne : s ≠ []) (before : Text)
    (x : State) (t : Text) : scanLine before x (s ++ t) =
      scanLine (s.reverse ++ before) ⟨x.mode.blank, x.stack⟩ t := by
  induction s generalizing before x with
  | nil => exact absurd rfl hne
  | cons c s ih =>
      rw [List.all_cons, Bool.and_eq_true] at hs
      rw [List.cons_append, scanLine_of_step (step_of_isBlank hs.1 before x _), List.reverse_cons,
        List.append_assoc, List.singleton_append]
      cases s with
      | nil => rfl
      | cons d s =>
          rw [ih hs.2 (List.cons_ne_nil d s), blank_blank]

/-- A mode that a blank does not change. -/
def Mode.IsSteady (m : Mode) : Prop := m.blank = m

theorem scanLine_steady {s : Text} (hs : s.all Text.isBlank = true) {x : State}
    (hx : x.mode.IsSteady) (before t : Text) :
    scanLine before x (s ++ t) = scanLine (s.reverse ++ before) x t := by
  cases s with
  | nil => rfl
  | cons c s =>
      rw [scanLine_gap hs (List.cons_ne_nil c s), hx]

theorem isSteady_backquote (m : Mode) (next : Option Char) : (m.after '\x60' next).IsSteady := by
  cases m with
  | literal q escaped =>
      cases escaped with
      | true => rfl
      | false => cases q <;> rfl
  | _ => rfl

/-! ### The end of a line -/

/-- A mode in which a line may begin. -/
def Mode.IsSettled (m : Mode) : Prop := m = .code ∨ m = .rawString ∨ m = .blockComment

theorem Mode.IsSettled.awaits {m : Mode} (hm : m.IsSettled) (next : Option Char) :
    m.Awaits next := by
  rcases hm with rfl | rfl | rfl <;> trivial

theorem awaits_of_scanLine {before t : Text} {x x' : State} (h : scanLine before x t = .ok x')
    (hx : x.mode.Awaits t.head?) : x'.mode.Awaits none := by
  induction t generalizing before x with
  | nil =>
      cases h
      exact hx
  | cons c t ih =>
      obtain ⟨y, hstep, h⟩ := exists_of_bind_ok h
      exact ih h (step_mode hstep ▸ awaits_after x.mode c t.head?)

/-- Where a line ends, the next one may begin. -/
theorem Leads.isSettled {s s' : State} {t : Text} (h : Leads s t s') (hs : s.mode.IsSettled) :
    s'.mode.IsSettled := by
  obtain ⟨x, hscan, hend⟩ := exists_of_bind_ok h
  have hawaits := awaits_of_scanLine hscan (hs.awaits t.head?)
  obtain ⟨mode, stack⟩ := x
  cases mode with
  | code =>
      cases hend
      exact Or.inl rfl
  | literal q escaped => cases q <;> cases hend
  | rawString =>
      cases hend
      exact Or.inr (Or.inl rfl)
  | lineComment =>
      cases hend
      exact Or.inl rfl
  | opening => cases hawaits
  | blockComment =>
      cases hend
      exact Or.inr (Or.inr rfl)
  | closing => cases hawaits

theorem awaits_blank (m : Mode) (next : Option Char) : m.blank.Awaits next := by
  cases m <;> trivial

theorem endLine_blank {x : State} {next : Option Char} (hx : x.mode.Awaits next)
    (hnext : ∀ d, Text.isBlank d = false → next ≠ some d) :
    endLine ⟨x.mode.blank, x.stack⟩ = endLine x := by
  obtain ⟨mode, stack⟩ := x
  cases mode with
  | literal q escaped => cases q <;> rfl
  | opening => exact absurd hx (hnext '*' (by decide))
  | closing => exact absurd hx (hnext '/' (by decide))
  | _ => rfl

theorem head?_blanks {s : Text} (hs : s.all Text.isBlank = true) {d : Char}
    (hd : Text.isBlank d = false) : s.head? ≠ some d := by
  intro h
  rw [List.all_eq_true.1 hs d (List.mem_of_head? h)] at hd
  cases hd

/-- The blanks at the end of a line change nothing where it ends. -/
theorem scanLine_trailing {s : Text} (hs : s.all Text.isBlank = true) (before : Text) {x : State}
    (hx : x.mode.Awaits s.head?) : scanLine before x s >>= endLine = endLine x := by
  cases s with
  | nil => rfl
  | cons c s =>
      have hgap := scanLine_gap hs (List.cons_ne_nil c s) before x []
      rw [List.append_nil] at hgap
      rw [hgap]
      exact endLine_blank hx fun d hd => head?_blanks hs hd

/-! ### Texts with other blanks -/

/-- The second text differs from the first one only in how many blanks stand between words, and in
which ones, and it has none at its end. Behind a backquote there may be blanks in the second text
where the first one has none. -/
inductive Respaced : Text → Text → Prop
  | trailing {s : Text} (hs : s.all Text.isBlank = true) : Respaced s []
  | cons {t t' : Text} (c : Char) (h : Respaced t t') : Respaced (c :: t) (c :: t')
  | gap {s s' t t' : Text} (hs : s.all Text.isBlank = true) (hne : s ≠ [])
    (hs' : s'.all Text.isBlank = true) (hne' : s' ≠ []) (h : Respaced t t') :
    Respaced (s ++ t) (s' ++ t')
  | backquote {s t t' : Text} (hs : s.all Text.isBlank = true) (h : Respaced t t') :
    Respaced ('\x60' :: t) ('\x60' :: (s ++ t'))

theorem Respaced.all_isBlank {t : Text} (h : Respaced t []) : t.all Text.isBlank = true := by
  generalize hnil : ([] : Text) = t' at h
  cases h with
  | trailing hs => exact hs
  | cons c h => cases hnil
  | gap hs hne hs' hne' h => exact absurd (List.append_eq_nil_iff.1 hnil.symm).1 hne'
  | backquote hs h => cases hnil

theorem Respaced.append_left {t t' : Text} (h : Respaced t t') (s : Text) :
    Respaced (s ++ t) (s ++ t') := by
  induction s with
  | nil => exact h
  | cons c s ih => exact .cons c ih

theorem Respaced.append_blanks {t t' : Text} (h : Respaced t t') {s : Text}
    (hs : s.all Text.isBlank = true) : Respaced (t ++ s) t' := by
  induction h with
  | trailing ht => exact .trailing (by rw [List.all_append, ht, hs]; rfl)
  | cons c h ih => exact .cons c ih
  | gap hgap hne hgap' hne' h ih =>
      rw [List.append_assoc]
      exact .gap hgap hne hgap' hne' ih
  | backquote hgap h ih => exact .backquote hgap ih

theorem Respaced.refl (t : Text) : Respaced t t := by
  have h := (Respaced.trailing (s := []) rfl).append_left t
  rwa [List.append_nil] at h

theorem head?_blanks_append {s : Text} (hs : s.all Text.isBlank = true) (hne : s ≠ []) (t : Text)
    {d : Char} (hd : Text.isBlank d = false) : (s ++ t).head? ≠ some d := by
  cases s with
  | nil => exact absurd rfl hne
  | cons c s => exact head?_blanks (s := c :: s) hs hd

theorem Respaced.head?_iff {t t' : Text} (h : Respaced t t') (d : Char)
    (hd : Text.isBlank d = false) : t.head? = some d ↔ t'.head? = some d := by
  cases h with
  | trailing hs => exact iff_of_false (head?_blanks hs hd) nofun
  | cons c h => exact Iff.rfl
  | gap hs hne hs' hne' h =>
      exact iff_of_false (head?_blanks_append hs hne _ hd) (head?_blanks_append hs' hne' _ hd)
  | backquote hs h => exact Iff.rfl

/-- A scanner ends alike behind lines that differ in the blanks between words only. -/
theorem scanLine_respaced {t t' before before' : Text} (h : Respaced t t')
    (hbefore : EndsAlike before before') {x : State} (hx : x.mode.Awaits t.head?) :
    scanLine before x t >>= endLine = scanLine before' x t' >>= endLine := by
  induction h generalizing before before' x with
  | trailing hs => exact scanLine_trailing hs before hx
  | @cons t t' c h ih =>
      rw [scanLine, scanLine, step_congr hbefore x c (after_congr h.head?_iff x.mode c)]
      cases hstep : step before' x c t'.head? with
      | error e => rfl
      | ok x' =>
          refine ih (hbefore.cons c) ?_
          rw [step_mode hstep, ← after_congr h.head?_iff]
          exact awaits_after x.mode c t.head?
  | gap hs hne hs' hne' h ih =>
      rw [scanLine_gap hs hne, scanLine_gap hs' hne']
      refine ih (hbefore.blanks ?_ ?_ ?_ ?_) (awaits_blank _ _)
      · rwa [List.all_reverse]
      · simpa using hne
      · rwa [List.all_reverse]
      · simpa using hne'
  | @backquote s t t' hs h ih =>
      have hmode : x.mode.after '\x60' t.head? = x.mode.after '\x60' (s ++ t').head? := by
        cases x.mode with
        | literal q escaped => cases escaped <;> rfl
        | _ => rfl
      rw [scanLine, scanLine, step_congr hbefore x '\x60' hmode]
      cases hstep : step before' x '\x60' (s ++ t').head? with
      | error e => rfl
      | ok x' =>
          have hsteady : x'.mode.IsSteady := step_mode hstep ▸ isSteady_backquote _ _
          have hreverse : s.reverse.all Text.isBlank = true := by rwa [List.all_reverse]
          change scanLine ('\x60' :: before) x' t >>= endLine =
            scanLine ('\x60' :: before') x' (s ++ t') >>= endLine
          rw [scanLine_steady hs hsteady]
          refine ih (endsAlike_backquote hreverse before before') ?_
          rw [step_mode hstep, ← hmode]
          exact awaits_after x.mode '\x60' t.head?

/-- A line of code leads where it leads with other blanks, also at its beginning. -/
theorem leads_respaced {s s' t t' : Text} {x : State} (hx : x.mode = .code) (h : Respaced t t')
    (hs : s.all Text.isBlank = true) (hs' : s'.all Text.isBlank = true) {y : State} :
    Leads x (s ++ t) y ↔ Leads x (s' ++ t') y := by
  have hsteady : x.mode.IsSteady := by
    rw [hx]
    rfl
  have hawaits : x.mode.Awaits t.head? := by
    rw [hx]
    trivial
  have hbefore : EndsAlike (s.reverse ++ []) (s'.reverse ++ []) := by
    rw [List.append_nil, List.append_nil]
    apply endsAlike_of_blanks
    · rwa [List.all_reverse]
    · rwa [List.all_reverse]
  unfold Leads
  rw [scanLine_steady hs hsteady, scanLine_steady hs' hsteady,
    scanLine_respaced h hbefore hawaits]

end SchemaModels.Go.Format
