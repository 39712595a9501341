import Mathlib.Data.List.Induction
import SchemaModels.Proofs.Ddl.Stepwise
import SchemaModels.Proofs.Ddl.Tiling

/-!
# The token that an error is about

A reader that fails stands at the token that its error is about (`Stepwise.blames`), because each of
its steps does. So the span of a parse error is that of a token of the source text, and the position
that is reported for it is where this token begins (`parse_error_at_token`). Positions are in the
order of the text: further on there are only later lines, or later columns of the same line.
-/

namespace SchemaModels.Ddl

/-! ### Errors at the current token -/

/-- The error is about the current token. -/
structure ParseError.Blames (e : ParseError) (c : Cursor) : Prop where
  span_eq : e.span = c.current.span
  kind_eq : ∀ k ∈ e.found?, k = c.current.kind

/-- The reader moves forward in its source text, where it fails up to the token that the error is
about. -/
def BlamesAt (p : Parse α) (c : Cursor) : Prop :=
  c.Inside →
    match p c with
    | .ok _ d => Reads true c d
    | .error e d => Reads true c d ∧ e.Blames d

namespace BlamesAt

open AgreesAt (bind_ok bind_error)

variable {c d : Cursor} {p : Parse α} {a : α} {e : ParseError}

theorem of_ok (hp : p c = .ok a d) (h : c.Inside → Reads true c d) : BlamesAt p c := by
  intro hc
  rw [hp]
  exact h hc

theorem of_error (hp : p c = .error e d) (h : c.Inside → Reads true c d ∧ e.Blames d) :
    BlamesAt p c := by
  intro hc
  rw [hp]
  exact h hc

theorem reads (h : BlamesAt p c) (hc : c.Inside) (hp : p c = .ok a d) : Reads true c d := by
  have h := h hc
  rwa [hp] at h

theorem blames (h : BlamesAt p c) (hc : c.Inside) (hp : p c = .error e d) :
    Reads true c d ∧ e.Blames d := by
  have h := h hc
  rwa [hp] at h

theorem congr {q : Parse α} (h : BlamesAt q c) (hp : c.Inside → p c = q c) : BlamesAt p c := by
  intro hc
  rw [hp hc]
  exact h hc

theorem refuse (expected : Expected) (h : Reads true c d)
    (hp : p c = Parse.refuse expected d) : BlamesAt p c :=
  of_error hp fun _ => ⟨h, rfl, fun _ hk => (Option.mem_some_iff.1 hk).symm⟩

theorem bind {f : α → Parse β} (hp : BlamesAt p c)
    (hf : ∀ a d, p c = .ok a d → BlamesAt (f a) d) : BlamesAt (p >>= f) c := by
  cases h : p c with
  | error e d => exact of_error (bind_error p f h) fun hc => hp.blames hc h
  | ok a d =>
    have hbind := bind_ok p f h
    have hfa := hf a d h
    cases hd : f a d with
    | error e' d' =>
      refine of_error (hbind.trans hd) fun hc => ?_
      have hreads := hp.reads hc h
      obtain ⟨hreads', he⟩ := hfa.blames (hreads.inside hc) hd
      exact ⟨hreads.trans hreads', he⟩
    | ok b d' =>
      refine of_ok (hbind.trans hd) fun hc => ?_
      have hreads := hp.reads hc h
      exact hreads.trans (hfa.reads (hreads.inside hc) hd)

theorem withSource (h : BlamesAt p c) : BlamesAt (Parse.withSource p) c := by
  cases hp : p c with
  | error e d => exact of_error (Parse.withSource_of_error hp) fun hc => h.blames hc hp
  | ok a d => exact of_ok (Parse.withSource_of_ok hp) fun hc => h.reads hc hp

theorem many {step : Parse (Option α)} (h : ∀ d, BlamesAt step d) :
    BlamesAt (Parse.many step) c := by
  induction hn : c.ahead.length using Nat.strongRecOn generalizing c with
  | ind n ih =>
    cases hs : step c with
    | error e d => exact of_error (Parse.many_of_error hs) fun hc => (h c).blames hc hs
    | ok x d =>
      cases x with
      | none => exact of_ok (Parse.many_of_none hs) fun hc => (h c).reads hc hs
      | some a =>
        by_cases hlt : d.ahead.length < c.ahead.length
        · have hmany := Parse.many_of_some hs hlt
          have hrest := ih d.ahead.length (hn ▸ hlt) rfl
          cases hm : Parse.many step d with
          | error e d' =>
            rw [hm] at hmany
            refine of_error hmany fun hc => ?_
            have hreads := (h c).reads hc hs
            obtain ⟨hreads', he⟩ := hrest.blames (hreads.inside hc) hm
            exact ⟨hreads.trans hreads', he⟩
          | ok as d' =>
            rw [hm] at hmany
            refine of_ok hmany fun hc => ?_
            have hreads := (h c).reads hc hs
            exact hreads.trans (hrest.reads (hreads.inside hc) hm)
        · exact of_ok (Parse.many_of_stuck hs hlt) fun hc => (h c).reads hc hs

end BlamesAt

/-- What is made of the steps of a cursor fails at the token that the error is about. -/
theorem Stepwise.blames {p : Parse α} (h : Stepwise p) (c : Cursor) : BlamesAt p c := by
  induction h generalizing c with
  | pure a => exact .of_ok rfl fun _ => .refl true c
  | refuse expected => exact .refuse expected (.refl true c) rfl
  | fail h =>
    refine .of_error rfl fun _ => ⟨.refl true c, rfl, fun k hk => ?_⟩
    rw [h] at hk
    cases hk
  | kind => exact .of_ok rfl fun _ => .refl true c
  | name? => exact .of_ok rfl fun _ => .refl true c
  | skip n => exact .of_ok rfl fun _ => .drop n c
  | skipWhile f => exact .of_ok rfl fun _ => .drop _ c
  | skipGroup =>
    cases h : groupLength 0 c.ahead with
    | some n => exact .of_ok (Parse.skipGroup_of_some h) fun _ => .drop n c
    | none => exact .refuse .groupEnd (.drop _ c) (Parse.skipGroup_of_none h)
  | skipBalanced =>
    rcases h : balancedLength 0 c.ahead with ⟨n, _ | expected⟩
    · exact .of_ok (Parse.skipBalanced_of_none h) fun _ => .drop n c
    · exact .refuse expected (.drop n c) (Parse.skipBalanced_of_some h)
  | notBefore words _ _ ihp ihq =>
    refine .bind (.of_ok rfl fun _ => .refl true c) fun found d _ => ?_
    split
    · exact .bind (.of_ok rfl fun _ => .refl true d) fun found d _ => ihp found d
    · exact ihq d
  | bind _ _ ihp ihf => exact (ihp c).bind fun a d _ => ihf a d
  | withSource _ ih => exact (ih c).withSource
  | many _ ih => exact .many ih
  | recursion q _ h ih =>
    exact (ih (c.ahead.length + 1) c).congr fun hc => h _ c hc (Nat.lt_succ_self _)

/-- The current token of a reader in a source text is one of the tokens of that text. -/
theorem Reads.current_mem {source : Text} {blind : Bool} {d : Cursor}
    (h : Reads blind (.ofSource source) d) : d.current ∈ tokens source := by
  by_cases hnil : d.ahead = []
  · have hend : d.current = endToken source := by
      rw [Cursor.current, hnil, h.source_eq]
      rfl
    rw [hend, tokens]
    exact List.mem_append_right _ List.mem_cons_self
  · refine List.mem_append_left _ (h.suffix.mem ?_)
    rw [Cursor.ahead_eq_cons hnil]
    exact List.mem_cons_self

theorem error_of_parse {defaults : TableDefaults} {source : Text} {e : ParseError}
    (h : parse defaults source = .error e) : ∃ t ∈ tokens source, e.span = t.span ∧
      ∀ k ∈ e.found?, k = t.kind := by
  have hblames := (Stepwise.statements defaults).blames (.ofSource source)
  unfold parse at h
  split at h
  · cases h
  · rename_i e' d hd
    cases h
    obtain ⟨hreads, he⟩ := hblames.blames (Cursor.inside_ofSource source) hd
    exact ⟨d.current, hreads.current_mem, he.span_eq, he.kind_eq⟩

/-! ### Positions -/

/-- A character of the text begins at the byte offset, or the text ends there. -/
def IsBoundary (offset : Nat) (source : Text) : Prop :=
  ∃ a b, source = a ++ b ∧ offset = Text.byteLength a

namespace Position

/-- The position is found at the byte offset: behind as many line breaks as there are lines before
it, one goes over as many characters of its line as there are before its column. -/
def Locates (p : Position) (source : Text) (offset : Nat) : Prop :=
  ∃ lines line rest, source = lines ++ line ++ rest ∧
    (lines = [] ∨ lines.getLast? = some '\n') ∧ lines.count '\n' + 1 = p.line ∧
    '\n' ∉ line ∧ line.length + 1 = p.column ∧ offset = Text.byteLength (lines ++ line)

/-- The order of positions is that of their lines and, within a line, that of their columns. -/
def Before (p q : Position) : Prop := p.line < q.line ∨ p.line = q.line ∧ p.column < q.column

theorem Before.trans {p q r : Position} (h : p.Before q) (h' : q.Before r) : p.Before r := by
  unfold Before at h h' ⊢
  omega

theorem after_concat (t : Text) (c : Char) : after (t ++ [c]) =
    if c = '\n' then ⟨(after t).line + 1, 1⟩ else ⟨(after t).line, (after t).column + 1⟩ := by
  unfold after
  rw [List.foldl_append]
  rfl

theorem before_after_concat (t : Text) (c : Char) : (after t).Before (after (t ++ [c])) := by
  rw [after_concat]
  split
  · exact Or.inl (Nat.lt_succ_self _)
  · exact Or.inr ⟨rfl, Nat.lt_succ_self _⟩

theorem before_after_append (s : Text) {t : Text} (h : t ≠ []) :
    (after s).Before (after (s ++ t)) := by
  induction t using List.reverseRecOn with
  | nil => exact absurd rfl h
  | append_singleton t c ih =>
    have hstep := before_after_concat (s ++ t) c
    rw [List.append_assoc] at hstep
    by_cases ht : t = []
    · subst ht
      rwa [List.append_nil] at hstep
    · exact (ih ht).trans hstep

/-- A text is some whole lines, as many as its last position says, and the beginning of one more. -/
theorem exists_lines (t : Text) : ∃ lines line, t = lines ++ line ∧
    (lines = [] ∨ lines.getLast? = some '\n') ∧ '\n' ∉ line ∧
    after t = ⟨lines.count '\n' + 1, line.length + 1⟩ := by
  induction t using List.reverseRecOn with
  | nil => exact ⟨[], [], rfl, Or.inl rfl, List.not_mem_nil, rfl⟩
  | append_singleton t c ih =>
    obtain ⟨lines, line, rfl, hlines, hline, hafter⟩ := ih
    rw [after_concat, hafter]
    by_cases hc : c = '\n'
    · refine ⟨lines ++ line ++ [c], [], (List.append_nil _).symm, Or.inr ?_, List.not_mem_nil, ?_⟩
      · rw [List.getLast?_concat, hc]
      · simp [hc, List.count_eq_zero_of_not_mem hline]
    · refine ⟨lines, line ++ [c], List.append_assoc _ _ _, hlines, ?_, ?_⟩
      · simp [hline, Ne.symm hc]
      · simp [hc]

theorem locates_after (s t : Text) : (after s).Locates (s ++ t) (Text.byteLength s) := by
  obtain ⟨lines, line, rfl, hlines, hline, hafter⟩ := exists_lines s
  exact ⟨lines, line, t, rfl, hlines, by rw [hafter], hline, by rw [hafter], rfl⟩

end Position

theorem Span.position_append (s t : Text) (stop : Nat) :
    Span.position ⟨Text.byteLength s, stop⟩ (s ++ t) = .after s := by
  rw [Span.position, Text.charsBefore_append]

theorem Span.locates_position {source : Text} {s : Span} (h : IsBoundary s.start source) :
    (s.position source).Locates source s.start := by
  obtain ⟨start, stop⟩ := s
  obtain ⟨a, b, rfl, rfl⟩ := h
  rw [Span.position_append]
  exact Position.locates_after a b

theorem Span.before_position {source : Text} {s s' : Span} (h : IsBoundary s.start source)
    (h' : IsBoundary s'.start source) (hlt : s.start < s'.start) :
    (s.position source).Before (s'.position source) := by
  obtain ⟨start, stop⟩ := s
  obtain ⟨start', stop'⟩ := s'
  obtain ⟨a, b, rfl, rfl⟩ := h
  obtain ⟨a', b', heq, rfl⟩ := h'
  obtain ⟨between, rfl, -⟩ | ⟨between, rfl, -⟩ := List.append_eq_append_iff.1 heq
  · have hne : between ≠ [] := by
      rintro rfl
      simp at hlt
    rw [Span.position_append, heq, Span.position_append]
    exact Position.before_after_append a hne
  · have hle : Text.byteLength a' ≤ Text.byteLength (a' ++ between) := by
      rw [Text.byteLength_append]
      exact Nat.le_add_right _ _
    exact absurd hlt (Nat.not_lt.2 hle)

theorem IsTiling.isBoundary_start {source : Text} {ts : List Token} (h : IsTiling source ts)
    {t : Token} (ht : t ∈ ts) : IsBoundary t.span.start source := by
  obtain ⟨a, b, c, hsource, hspan⟩ := h.inside t ht
  exact ⟨a, b ++ c, by rw [hsource, List.append_assoc], by rw [hspan]⟩

/-- A parse error is about a token of the source text, the end included, and names its kind where it
names one. The position that is reported for it leads to the beginning of this token. Positions of
a text are ordered as its characters are. -/
theorem parse_error_at_token (defaults : TableDefaults) (source : Text) :
    (∀ e, parse defaults source = .error e →
      (∃ t ∈ tokens source, e.span = t.span ∧ ∀ k ∈ e.found?, k = t.kind) ∧
      (e.span.position source).Locates source e.span.start) ∧
    ∀ s s' : Span, IsBoundary s.start source → IsBoundary s'.start source →
      s.start < s'.start → (s.position source).Before (s'.position source) := by
  refine ⟨fun e he => ?_, fun s s' h h' hlt => Span.before_position h h' hlt⟩
  obtain ⟨t, ht, hspan, hkind⟩ := error_of_parse he
  refine ⟨⟨t, ht, hspan, hkind⟩, Span.locates_position ?_⟩
  rw [hspan]
  exact (isTiling_tokens source).isBoundary_start ht

/-- A table of which the third line begins with a comma too many. -/
def emptyEntryText : Text := "CREATE TABLE t (\n  größe INT,\n, b INT)"

theorem emptyEntryText_error :
    parse {} emptyEntryText =
        .error ⟨.unexpected .columnName (.symbol .comma), ⟨32, 33⟩⟩ ∧
      ((∃ t ∈ tokens emptyEntryText, (⟨32, 33⟩ : Span) = t.span ∧
          ∀ k ∈ some (TokenKind.symbol .comma), k = t.kind) ∧
        (Position.mk 3 1).Locates emptyEntryText 32) ∧
      (Position.mk 2 4).Before ⟨2, 5⟩ := by
  have hparse : parse {} emptyEntryText =
      .error ⟨.unexpected .columnName (.symbol .comma), ⟨32, 33⟩⟩ := by decide +kernel
  have hall := parse_error_at_token {} emptyEntryText
  have hr : IsBoundary 20 emptyEntryText :=
    ⟨"CREATE TABLE t (\n  g", "röße INT,\n, b INT)", by decide, by decide⟩
  have hö : IsBoundary 21 emptyEntryText :=
    ⟨"CREATE TABLE t (\n  gr", "öße INT,\n, b INT)", by decide, by decide⟩
  exact ⟨hparse, hall.1 _ hparse, hall.2 ⟨20, 20⟩ ⟨21, 21⟩ hr hö (by decide)⟩

end SchemaModels.Ddl
