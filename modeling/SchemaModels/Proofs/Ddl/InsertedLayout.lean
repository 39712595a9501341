import Mathlib.Data.Bool.AllAny
import SchemaModels.Proofs.Ddl.LookAheadTokens
import SchemaModels.Proofs.Ddl.SpelledWords

/-!
# Layout put between two tokens

Blanks or a comment that is put where a token begins or ends changes no kind of token. Two places
are exceptions. Blanks behind two hyphens that touch each other may make a comment of them. And
where a number touches a lone exponent mark (`LoneMark`), the hyphens of a comment behind the mark
are taken for the sign of an exponent, so that the number is none any more
(`kinds_of_inserted_layout`).
-/

namespace SchemaModels.Ddl

/-- Some blanks or one comment, which ends where the text does. -/
inductive IsLayout : Text → Prop
  | blanks {w : Text} (hne : w ≠ []) (hw : w.all Text.isBlank = true) : IsLayout w
  | line {mark body : Text} (hmark : mark = ['#'] ∨
      mark = ['-', '-'] ∧ (body ++ ['\n']).head?.any Text.isBlank = true)
    (hbody : '\n' ∉ body) : IsLayout (mark ++ body ++ ['\n'])
  | block {body : Text} (hbody : ¬ ['*', '/'] <:+: body ++ ['*']) :
    IsLayout (['/', '*'] ++ body ++ ['*', '/'])

/-- Two hyphens that are tokens touch each other in front of the offset. -/
def HyphensTouch (source : Text) (offset : Nat) : Prop :=
  ∃ s ∈ lexemes source, ∃ t ∈ lexemes source, s.kind = .symbol .minus ∧ t.kind = .symbol .minus ∧
    s.span.stop = t.span.start ∧ t.span.stop = offset

/-- A number without an exponent touches an exponent mark that is a token in front of the offset. -/
def LoneMark (source : Text) (offset : Nat) : Prop :=
  ∃ s ∈ lexemes source, ∃ t ∈ lexemes source,
    Lexer.AwaitsSign (s.span.slice source) (t.span.slice source) ∧
    s.span.stop = t.span.start ∧ t.span.stop = offset

open Lexer (Cut Stops Skippable next)

/-! ### Layout is skipped -/

variable {a b u v w x : Text} {t : Token}

theorem skippable_blanks (hw : w.all Text.isBlank = true) (b : Text) : Skippable w b := by
  induction w with
  | nil => exact .nil b
  | cons c w ih =>
    rw [List.all_cons, Bool.and_eq_true] at hw
    exact .blank hw.1 (ih hw.2)

theorem IsLayout.skippable (h : IsLayout w) (b : Text) : Skippable w b := by
  cases h with
  | blanks hne hw => exact skippable_blanks hw b
  | @line mark body hmark hbody =>
    refine .line (hmark.imp_right fun h => ⟨h.1, ?_⟩) hbody rfl (.blank (by decide) (.nil b))
    obtain ⟨-, hblank⟩ := h
    cases body with
    | nil => rfl
    | cons d body => exact hblank
  | @block body hbody =>
    have hblock := Skippable.block hbody (.nil b)
    rwa [List.append_nil] at hblock

/-- Behind layout the same tokens are read, at other places. -/
theorem IsLayout.kinds (h : IsLayout w) (o : Nat) (b : Text) :
    (lexemesFrom ⟨o, w ++ b⟩).map (·.kind) = (lexemesFrom ⟨o, b⟩).map (·.kind) := by
  have hskip := (h.skippable b).skip o
  rw [lexemesFrom_congr (q := ⟨o + Text.byteLength w, b⟩) (Lexer.next_congr hskip), kindsOf_from,
    kindsOf_from]

/-! ### Layout goes on with no token -/

theorem stops_of_isBlank {c : Char} (h : Text.isBlank c = true) : Stops c := by
  have hstops : ∀ c ∈ Text.blanks, Stops c := List.all_iff_forall_prop.1 (by decide +kernel)
  exact hstops c (Text.mem_blanks h)

/-- How layout begins: with a blank, or with the mark of a comment. -/
theorem IsLayout.begins (h : IsLayout w) : ∃ d r, w = d :: r ∧
    (Text.isBlank d = true ∧ w.all Text.isBlank = true ∨ d = '#' ∨ d = '/' ∨
      d = '-' ∧ ∃ v, r = '-' :: v) := by
  cases h with
  | blanks hne hw =>
    obtain ⟨d, r, rfl⟩ := List.exists_cons_of_ne_nil hne
    rw [List.all_cons, Bool.and_eq_true] at hw
    exact ⟨d, r, rfl, .inl ⟨hw.1, by rw [List.all_cons, hw.1, hw.2]; rfl⟩⟩
  | @line mark body hmark hbody =>
    obtain rfl | ⟨rfl, -⟩ := hmark
    · exact ⟨'#', body ++ ['\n'], rfl, .inr (.inl rfl)⟩
    · exact ⟨'-', '-' :: body ++ ['\n'], rfl, .inr (.inr (.inr ⟨rfl, body ++ ['\n'], rfl⟩))⟩
  | @block body hbody => exact ⟨'/', '*' :: body ++ ['*', '/'], rfl, .inr (.inr (.inl rfl))⟩

theorem IsLayout.cut (h : IsLayout w) (u b : Text) : Cut u (w ++ b) := by
  obtain ⟨d, r, rfl, hd⟩ := h.begins
  have hmarks : Stops '#' ∧ Stops '/' ∧ Stops '-' := by decide +kernel
  obtain ⟨hblank, -⟩ | rfl | rfl | ⟨rfl, v, rfl⟩ := hd
  · refine ⟨⟨d, r ++ b, rfl, .inl (stops_of_isBlank hblank)⟩, ?_⟩
    have hne : d ≠ '-' := by
      rintro rfl
      cases hblank
    simp [Lexer.opensLine, hne]
  · exact ⟨⟨'#', r ++ b, rfl, .inl hmarks.1⟩, rfl⟩
  · exact ⟨⟨'/', r ++ b, rfl, .inl hmarks.2.1⟩, rfl⟩
  · exact ⟨⟨'-', '-' :: v ++ b, rfl, .inl hmarks.2.2⟩, rfl⟩

theorem IsLayout.all_of_head (h : IsLayout w) (b : Text)
    (hb : (w ++ b).head?.all Text.isBlank = true) : w.all Text.isBlank = true := by
  obtain ⟨d, r, rfl, ⟨-, hw⟩ | rfl | rfl | ⟨rfl, -⟩⟩ := h.begins
  · exact hw
  · cases hb
  · cases hb
  · cases hb

theorem IsLayout.eq_of_hyphen (h : IsLayout w) (hw : w.head? = some '-') :
    ∃ v, w = '-' :: '-' :: v := by
  obtain ⟨d, r, rfl, hd⟩ := h.begins
  obtain rfl : d = '-' := Option.some.inj hw
  obtain ⟨hblank, -⟩ | hhash | hslash | ⟨-, v, rfl⟩ := hd
  · cases hblank
  · cases hhash
  · cases hslash
  · exact ⟨v, rfl⟩

/-! ### A hyphen behind an exponent mark -/

theorem span_digits {ds r : Text} (hds : ds.all Char.isDigit = true)
    (hr : r.head?.any Char.isDigit = false) :
    (ds ++ r).takeWhile Char.isDigit = ds ∧ (ds ++ r).dropWhile Char.isDigit = r := by
  have hds := List.all_eq_true.1 hds
  rw [List.takeWhile_append_of_pos hds, List.dropWhile_append_of_pos hds]
  cases r with
  | nil => exact ⟨List.append_nil ds, rfl⟩
  | cons c r =>
    have hc : ¬ c.isDigit = true := by simpa using hr
    rw [List.takeWhile_cons_of_neg hc, List.dropWhile_cons_of_neg hc, List.append_nil]
    exact ⟨rfl, rfl⟩

/-- An exponent needs a digit behind its sign. -/
theorem readUnsigned?_sign {whole f : Text} (hwhole : whole.all Char.isDigit = true)
    (hf : f = [] ∨ ∃ ds, f = '.' :: ds ∧ ds.all Char.isDigit = true) {e : Char}
    (he : e = 'e' ∨ e = 'E') (negative : Bool) :
    Binary64.readUnsigned? negative (whole ++ f ++ [e, '-']) = none := by
  have hsign : Binary64.readExponent? ['-'] = none := rfl
  have hmark : [e, '-'].head?.any Char.isDigit = false ∧ e ≠ '.' := by
    obtain rfl | rfl := he
    · decide
    · decide
  rw [List.append_assoc]
  unfold Binary64.readUnsigned?
  obtain rfl | ⟨ds, rfl, hds⟩ := hf
  · obtain ⟨htake, hdrop⟩ := span_digits hwhole hmark.1
    rw [List.nil_append, htake, hdrop]
    obtain rfl | rfl := he
    · simp [hsign]
    · simp [hsign]
  · have hpoint : ('.' :: ds ++ [e, '-']).head?.any Char.isDigit = false := rfl
    obtain ⟨htake, hdrop⟩ := span_digits hwhole hpoint
    obtain ⟨htake', hdrop'⟩ := span_digits hds hmark.1
    rw [htake, hdrop]
    simp [htake', hdrop', he, hsign]

theorem ofText?_of_digit {c : Char} {t : Text} (hc : c.isDigit = true)
    (h : Binary64.readUnsigned? false (c :: t) = none) : Binary64.ofText? (c :: t) = none := by
  have hne (d : Char) (hd : d.isDigit = false) : c ≠ d := by
    rintro rfl
    rw [hc] at hd
    cases hd
  have hlower : c.toLower = c := by
    have hupper : ¬ (c.val ≥ 'A'.val ∧ c.val ≤ 'Z'.val) := by
      simp only [Char.isDigit, UInt32.le_iff_toNat_le, Bool.and_eq_true, decide_eq_true_eq,
        ge_iff_le] at hc ⊢
      rintro ⟨h, -⟩
      have hA : 'A'.val.toNat = 65 := rfl
      have h9 : '9'.val.toNat = 57 := rfl
      omega
    unfold Char.toLower
    rw [dif_neg hupper]
  unfold Binary64.ofText?
  split
  rename_i negative body hbody
  obtain ⟨rfl, rfl⟩ : negative = false ∧ body = c :: t := by
    split at hbody
    · rename_i heq
      exact absurd (List.cons.inj heq).1 (hne '-' rfl)
    · rename_i heq
      exact absurd (List.cons.inj heq).1 (hne '+' rfl)
    · cases hbody
      exact ⟨rfl, rfl⟩
  have hword (d : Char) (v : Text) (hd : d.isDigit = false) : Text.lower (c :: t) ≠ d :: v := by
    rw [Text.lower, List.map_cons, hlower]
    exact fun heq => hne d hd (List.cons.inj heq).1
  have hinf : Text.lower (c :: t) ≠ "inf".toList := hword 'i' _ rfl
  have hinfinity : Text.lower (c :: t) ≠ "infinity".toList := hword 'i' _ rfl
  have hnan : Text.lower (c :: t) ≠ "nan".toList := hword 'n' _ rfl
  rw [h]
  dsimp only
  rw [if_neg (not_or.2 ⟨hinf, hinfinity⟩), if_neg hnan]

/-- A hyphen behind a lone exponent mark makes a fault of the number in front. -/
theorem number_sign {e : Char} {o : Nat} (hmark : Lexer.AwaitsSign x [e])
    (hrest : (Lexer.number o (x ++ e :: u)).2.rest = e :: u) (v : Text) :
    (Lexer.number o (x ++ e :: '-' :: '-' :: v)).1 = .fault .malformedNumber := by
  have he : e = 'e' ∨ e = 'E' := by simpa using hmark.mark
  have hfollows : Lexer.Follows (e :: u) (e :: '-' :: '-' :: v) := ⟨e, _, rfl, .inr rfl⟩
  have hpoint : (e :: '-' :: '-' :: v).head? ≠ some '.' := by
    obtain rfl | rfl := he
    · exact nofun
    · exact nofun
  obtain ⟨hwhole, f, z, hx, hf, hf'⟩ :=
    Lexer.number_parts hfollows hpoint (Nat.le_of_eq (congrArg List.length hrest.symm))
  have hexponent : (Lexer.exponentPart (z ++ e :: u)).2 = e :: u :=
    (congrArg (fun p : Text × Text => (Lexer.exponentPart p.2).2) hf).symm.trans hrest
  -- The exponent would begin with a mark, of which the number holds none.
  obtain rfl : z = [] := by
    have hparts := Lexer.exponentPart_append_rest (z ++ e :: u)
    rw [hexponent] at hparts
    have hz := List.append_cancel_right hparts
    have hmem {c : Char} (hc : c ∈ z) : c ∈ x := by
      rw [hx]
      exact List.mem_append_right _ hc
    have hmarks := Lexer.mark_mem_exponentPart (z ++ e :: u)
    rw [hz] at hmarks
    obtain hnil | hsmall | hcapital := hmarks
    · exact hnil
    · exact absurd (hmem hsmall) hmark.small
    · exact absurd (hmem hcapital) hmark.capital
  have hg : Lexer.exponentPart ([] ++ e :: '-' :: '-' :: v) = ([e, '-'], '-' :: v) := by
    rw [List.nil_append, Lexer.exponentPart_cons_cons, if_pos ⟨he, rfl⟩]
    rfl
  have hfraction := Lexer.fractionPart_cases ((x ++ e :: u).dropWhile Char.isDigit)
  rw [hf] at hfraction
  rw [List.append_nil] at hx
  have htext : Binary64.ofText? (x ++ [e, '-']) = none := by
    have hwhole : ((x ++ e :: u).takeWhile Char.isDigit).all Char.isDigit = true :=
      List.all_takeWhile
    have hunsigned := readUnsigned?_sign hwhole hfraction he false
    rw [← hx] at hunsigned
    cases x with
    | nil => exact absurd hmark.digit (by simp)
    | cons c x => exact ofText?_of_digit (by simpa using hmark.digit) hunsigned
  rw [Lexer.number_eq hf' hg, hwhole, ← hx, htext]
  simp

theorem lexemesFrom_digit (hx : x.head?.any Char.isDigit = true) (o : Nat) :
    lexemesFrom ⟨o, x⟩ = ⟨(Lexer.number o x).1, ⟨o, (Lexer.number o x).2.offset⟩⟩ ::
      lexemesFrom (Lexer.number o x).2 := by
  cases x with
  | nil => cases hx
  | cons c r =>
    have hc : c.isDigit = true := by simpa using hx
    have hnext := next_of_begins (begins_of_not_mem (Text.isBlank_of_isDigit hc)
      (Text.not_mem_of_any hc (by decide)) r) o
    have heof := Lexer.token_ne_eof o c r
    rw [token_of_isDigit hc] at hnext heof
    rw [lexemesFrom_of_ne_eof (by rw [hnext]; exact heof), hnext]

/-- Where a token that begins with a digit ends, its number does. -/
theorem number_of_lexemes {o : Nat} {ts : List Token} (hx : x.head?.any Char.isDigit = true)
    (h : t :: ts = lexemesFrom ⟨o, x ++ u⟩) (hstop : t.span.stop = o + Text.byteLength x) :
    (Lexer.number o (x ++ u)).2.rest = u := by
  cases x with
  | nil => cases hx
  | cons c x =>
    have hc : c.isDigit = true := by simpa using hx
    have hend := Lexer.number_stop o (c :: x ++ u)
    rw [lexemesFrom_digit (by simpa using hc)] at h
    rw [(List.cons.inj h).1] at hstop
    dsimp only at hstop
    rw [Place.stop, hstop, Text.byteLength_append] at hend
    have hsuffix : (Lexer.number o (c :: x ++ u)).2.rest <:+ c :: x ++ u :=
      (Lexer.number_suffix hc o (x ++ u)).trans (List.suffix_cons c _)
    exact eq_of_byteLength_eq hsuffix (List.suffix_append _ u) (by omega)

/-- Two hyphens behind a lone exponent mark make a fault of the number in front of it. -/
theorem fault_of_loneMark (hplain : ∀ s ∈ tokens (a ++ b), ¬ s.kind.IsFault)
    (h : LoneMark (a ++ b) (Text.byteLength a)) (v : Text) :
    ∃ t ∈ lexemes (a ++ '-' :: '-' :: v), t.kind.IsFault := by
  obtain ⟨s, hs, t, ht, hmark, htouch, hstop⟩ := h
  have hinside := (isTiling_tokens (a ++ b)).inside
  obtain ⟨p, q, r, hsource, hspan⟩ := hinside s (List.mem_append_left _ hs)
  obtain ⟨p', q', r', hsource', hspan'⟩ := hinside t (List.mem_append_left _ ht)
  have hslice : s.span.slice (a ++ b) = q := by
    rw [hsource, hspan]
    exact Span.slice_append p q r
  have hslice' : t.span.slice (a ++ b) = q' := by
    rw [hsource', hspan']
    exact Span.slice_append p' q' r'
  rw [hslice, hslice'] at hmark
  rw [hspan, hspan'] at htouch
  rw [hspan'] at hstop
  dsimp only at htouch hstop
  obtain ⟨rfl, rfl⟩ : a = p' ++ q' ∧ b = r' :=
    append_inj_of_byteLength hsource' (by rw [Text.byteLength_append, ← hstop])
  obtain ⟨rfl, -⟩ : p' = p ++ q ∧ q' ++ b = r := by
    refine append_inj_of_byteLength ?_ (by rw [Text.byteLength_append, ← htouch])
    rw [← hsource, List.append_assoc]
  obtain ⟨e, rfl⟩ : ∃ e, q' = [e] := hmark.mark.elim (fun he => ⟨'e', he⟩) fun hE => ⟨'E', hE⟩
  have htext (u : Text) : p ++ q ++ [e] ++ u = p ++ (q ++ e :: u) := by simp
  obtain ⟨before, after, hlexemes⟩ := List.append_of_mem hs
  rw [htext] at hplain hlexemes
  rw [htext]
  obtain ⟨c, l, rfl⟩ : ∃ c l, q = c :: l := by
    cases q with
    | nil => cases hmark.digit
    | cons c l => exact ⟨c, l, rfl⟩
  have hdigit : c.isDigit = true := by simpa using hmark.digit
  obtain ⟨hcut, huntouched⟩ := untouched_shared (.inr hdigit) (l ++ e :: b)
    (l ++ e :: '-' :: '-' :: v) 0 p before
  have hparts : PartedAt before (s :: after) (0 + Text.byteLength p) := by
    refine .inr ⟨s, rfl, hplain s (List.mem_append_left _ ?_), by rw [hspan, Nat.zero_add]⟩
    rwa [htext] at hs
  obtain ⟨hafter, hsame⟩ := lexemesFrom_same hcut hlexemes hparts huntouched
  rw [Nat.zero_add] at hafter hsame
  have hnumber := number_of_lexemes hmark.digit hafter (by rw [hspan])
  rw [lexemes, List.cons_append, hsame, lexemesFrom_digit (by simpa using hdigit)]
  exact ⟨_, List.mem_append_right _ List.mem_cons_self, .malformedNumber,
    number_sign hmark hnumber v⟩

/-! ### Layout between tokens -/

/-- Where a token begins or ends, it parts the tokens. -/
theorem exists_parted {source : Text} {offset : Nat} (ht : t ∈ lexemes source)
    (hplain : ¬ t.kind.IsFault) (hplace : t.span.start = offset ∨ t.span.stop = offset) :
    ∃ before after, lexemes source = before ++ after ∧ PartedAt before after offset := by
  obtain ⟨before, after, heq⟩ := List.append_of_mem ht
  obtain hstart | hstop := hplace
  · exact ⟨before, t :: after, heq, .inr ⟨t, rfl, hplain, hstart⟩⟩
  · exact ⟨before ++ [t], after, by rw [heq]; simp, .inl ⟨t, by simp, hstop⟩⟩

/-- Layout goes on with no token in front of it but for the two exceptions. -/
theorem untouched_of_layout (hplain : ∀ s ∈ tokens (a ++ b), ¬ s.kind.IsFault)
    {before after : List Token} (h : lexemes (a ++ b) = before ++ after) (hw : IsLayout w)
    (hhyphens : ¬ (w.all Text.isBlank = true ∧ HyphensTouch (a ++ b) (Text.byteLength a)))
    (hmark : ¬ (w.head? = some '-' ∧ LoneMark (a ++ b) (Text.byteLength a))) :
    Untouched b (w ++ b) 0 a before := by
  have hmem {s : Token} (hs : s ∈ before) : s ∈ lexemes (a ++ b) := by
    rw [h]
    exact List.mem_append_left _ hs
  refine ⟨fun s hs hfault => ?_, fun s hs t ht hminus hminus' htouch hstop => ?_, ?_⟩
  · exact absurd hfault (hplain s (List.mem_append_left _ (hmem hs)))
  · refine Bool.eq_false_iff.2 fun hblank => hhyphens ⟨hw.all_of_head b hblank, ?_⟩
    exact ⟨s, hmem hs, t, hmem ht, hminus, hminus', htouch, by rw [hstop, Nat.zero_add]⟩
  · rintro p lexeme mark rfl hawaits ⟨s, hs, hspan⟩ ⟨t, ht, hspan'⟩ hhead
    have hlexeme : s.span.slice (p ++ lexeme ++ mark ++ b) = lexeme := by
      rw [hspan, Nat.zero_add, List.append_assoc (p ++ lexeme)]
      exact Span.slice_append p lexeme (mark ++ b)
    have hletter : t.span.slice (p ++ lexeme ++ mark ++ b) = mark := by
      rw [hspan', Nat.zero_add, Nat.zero_add, ← Text.byteLength_append,
        Text.byteLength_append (p ++ lexeme)]
      exact Span.slice_append (p ++ lexeme) mark b
    refine hmark ⟨?_, s, hmem hs, t, hmem ht, by rwa [hlexeme, hletter], ?_, ?_⟩
    · obtain ⟨d, r, rfl, -⟩ := hw.begins
      exact hhead
    · rw [hspan, hspan']
    · rw [hspan']
      exact Nat.zero_add _

/-- Layout that is put where a token begins or ends leaves the kinds of the tokens as they are, but
for blanks behind two hyphens that touch each other, and exactly if it is no comment in hyphens
behind a lone exponent mark. -/
theorem kinds_of_inserted_layout (hplain : ∀ s ∈ tokens (a ++ b), ¬ s.kind.IsFault)
    (ht : t ∈ lexemes (a ++ b))
    (hplace : t.span.start = Text.byteLength a ∨ t.span.stop = Text.byteLength a)
    (hw : IsLayout w)
    (hhyphens : ¬ (w.all Text.isBlank = true ∧ HyphensTouch (a ++ b) (Text.byteLength a))) :
    (tokens (a ++ w ++ b)).map (·.kind) = (tokens (a ++ b)).map (·.kind) ↔
      ¬ (w.head? = some '-' ∧ LoneMark (a ++ b) (Text.byteLength a)) := by
  have hkinds (source : Text) : (tokens source).map (·.kind) =
      (lexemes source).map (·.kind) ++ [.eof] := List.map_append
  rw [hkinds, hkinds, List.append_left_inj]
  refine ⟨fun heq hmark => ?_, fun hmark => ?_⟩
  · obtain ⟨v, rfl⟩ := hw.eq_of_hyphen hmark.1
    obtain ⟨s, hs, hfault⟩ := fault_of_loneMark hplain hmark.2 (v ++ b)
    have htext : a ++ ('-' :: '-' :: v) ++ b = a ++ '-' :: '-' :: (v ++ b) := by simp
    rw [← htext] at hs
    have hkind : s.kind ∈ (lexemes (a ++ b)).map (·.kind) := by
      rw [← heq]
      exact List.mem_map_of_mem hs
    obtain ⟨s', hs', hsame⟩ := List.mem_map.1 hkind
    exact hplain s' (List.mem_append_left _ hs') (hsame ▸ hfault)
  · obtain ⟨before, after, h, hparts⟩ :=
      exists_parted ht (hplain t (List.mem_append_left _ ht)) hplace
    have huntouched := untouched_of_layout hplain h hw hhyphens hmark
    rw [← Nat.zero_add (Text.byteLength a)] at hparts
    obtain ⟨hafter, hsame⟩ := lexemesFrom_same (hw.cut b b) h hparts huntouched
    rw [List.append_assoc, h, lexemes, hsame, List.map_append, List.map_append, hw.kinds, ← hafter]

/-- A blank between two hyphens that touch each other stands behind the first one only. -/
theorem kinds_of_blank_between_hyphens :
    (∀ s ∈ tokens "--1", ¬ s.kind.IsFault) ∧
    ⟨.symbol .minus, ⟨0, 1⟩⟩ ∈ lexemes "--1" ∧ IsLayout " " ∧
    ¬ ((" " : Text).all Text.isBlank = true ∧ HyphensTouch "--1" 1) ∧
    (tokens "- -1").map (·.kind) = (tokens "--1").map (·.kind) := by
  have hlexemes : lexemes "--1" = [⟨.symbol .minus, ⟨0, 1⟩⟩, ⟨.symbol .minus, ⟨1, 2⟩⟩,
      ⟨.integer 1, ⟨2, 3⟩⟩] := by decide +kernel
  have hplain : ∀ s ∈ tokens "--1", ¬ s.kind.IsFault := by
    rw [tokens, hlexemes]
    simp [TokenKind.IsFault, endToken]
  have hmem : ⟨.symbol .minus, ⟨0, 1⟩⟩ ∈ lexemes "--1" := by
    rw [hlexemes]
    exact List.mem_cons_self
  have hlayout : IsLayout " " := .blanks (by decide) (by decide)
  have htouch : ¬ ((" " : Text).all Text.isBlank = true ∧ HyphensTouch "--1" 1) := by
    rw [HyphensTouch, hlexemes]
    simp
  have hmark : ¬ ((" " : Text).head? = some '-' ∧ LoneMark "--1" 1) := by
    rintro ⟨⟨⟩, -⟩
  refine ⟨hplain, hmem, hlayout, htouch, ?_⟩
  exact (kinds_of_inserted_layout (a := "-") (b := "-1") hplain hmem (.inr rfl) hlayout htouch).2
    hmark

/-- The hyphens of a comment behind a lone exponent mark are taken for a sign. -/
theorem comment_is_taken_for_sign :
    (tokens "1e").map (·.kind) = [.integer 1, .identifier "e", .eof] ∧
    ⟨.identifier "e", ⟨1, 2⟩⟩ ∈ lexemes "1e" ∧ IsLayout "-- c\n" ∧
    ¬ (("-- c\n" : Text).all Text.isBlank = true ∧ HyphensTouch "1e" 2) ∧
    (tokens "1e-- c\n").map (·.kind) =
      [.fault .malformedNumber, .symbol .minus, .identifier "c", .eof] := by
  have hlexemes : lexemes "1e" = [⟨.integer 1, ⟨0, 1⟩⟩, ⟨.identifier "e", ⟨1, 2⟩⟩] := by
    decide +kernel
  refine ⟨?_, ?_, ?_, ?_, by decide +kernel⟩
  · rw [tokens, hlexemes]
    rfl
  · rw [hlexemes]
    exact List.mem_cons_of_mem _ List.mem_cons_self
  · have hline : IsLayout (['-', '-'] ++ [' ', 'c'] ++ ['\n']) :=
      .line (.inr ⟨rfl, by decide⟩) (by decide)
    exact hline
  · rintro ⟨⟨⟩, -⟩

end SchemaModels.Ddl
