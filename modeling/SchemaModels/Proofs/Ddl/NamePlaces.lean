import SchemaModels.Proofs.Ddl.NameTokens
import SchemaModels.Proofs.Ddl.Postconditions

/-!
# Reading around a name

Two source texts differ in one name, which stands in backquotes in both (`Slot`). A reader that
stops in front of the name does the same in both texts (`Stepwise.same_ahead`), and so does one that
begins behind it (`Stepwise.same_behind`).
-/

namespace SchemaModels.Ddl

/-- A place for a name in backquotes: the texts around it and the tokens in front of it. -/
structure Slot where
  front : Text
  back : Text
  before : List Token

namespace Slot

variable (s : Slot) (n : Text)

/-- The text up to the name and with it. -/
def lead : Text := s.front ++ backquoted n

def source : Text := s.lead n ++ s.back

def token : Token :=
  ⟨.identifier n, ⟨Text.byteLength s.front, Text.byteLength (s.lead n)⟩⟩

def after : List Token := (lexemes s.back).map (Token.shift (Text.byteLength (s.lead n)))

/-- Every name is a token of the text, with the same tokens in front of it. -/
def Fits : Prop := ∀ n, lexemes (s.source n) = s.before ++ s.token n :: s.after n

/-- The cursor that has some tokens ahead in front of the name. -/
def ahead (ts : List Token) : Cursor := ⟨s.source n, ts ++ s.token n :: s.after n⟩

/-- The cursor that has only some tokens of the text behind the name ahead. -/
def behind (ts : List Token) : Cursor := (Surroundings.behind (s.lead n)).cursor ⟨s.back, ts⟩

variable {s n} {m : Text} {c : Cursor} {ts us : List Token}

theorem Fits.ofSource_eq (hs : s.Fits) (n : Text) :
    Cursor.ofSource (s.source n) = s.ahead n s.before := by
  rw [Cursor.ofSource, hs n]
  rfl

theorem length_ahead : (s.ahead n ts).ahead.length = ts.length + 1 + (lexemes s.back).length := by
  simp only [ahead, after, List.length_append, List.length_cons, List.length_map]
  omega

theorem length_behind : (s.behind n ts).ahead.length = ts.length := List.length_map _

theorem ahead_inj (h : s.ahead n ts = s.ahead n us) : ts = us :=
  List.append_cancel_right (congrArg Cursor.ahead h)

theorem ahead_ne_behind (hus : us <:+ lexemes s.back) : s.ahead n ts ≠ s.behind n us := by
  intro h
  have hlength := congrArg (fun c => c.ahead.length) h
  have hle := hus.length_le
  simp only [length_ahead, length_behind] at hlength
  omega

/-- What is left of the tokens ahead of the name is in front of it or behind it. -/
theorem cases_of_suffix (hsource : c.source = s.source n)
    (h : c.ahead <:+ ts ++ s.token n :: s.after n) :
    (∃ us, us <:+ ts ∧ c = s.ahead n us) ∨ ∃ us, us <:+ lexemes s.back ∧ c = s.behind n us := by
  obtain ⟨source, left⟩ := c
  obtain rfl : source = s.source n := hsource
  induction ts with
  | nil =>
    obtain rfl | h := List.suffix_cons_iff.1 h
    · exact Or.inl ⟨[], List.suffix_rfl, rfl⟩
    · obtain ⟨us, hus, rfl⟩ := List.suffix_map_iff.1 h
      exact Or.inr ⟨us, hus, rfl⟩
  | cons t ts ih =>
    obtain rfl | h := List.suffix_cons_iff.1 h
    · exact Or.inl ⟨t :: ts, List.suffix_rfl, rfl⟩
    · obtain ⟨us, hus, hc⟩ | hbehind := ih h
      · exact Or.inl ⟨us, hus.trans (List.suffix_cons t ts), hc⟩
      · exact Or.inr hbehind

theorem Fits.lexed_ahead (hs : s.Fits) (hts : ts <:+ s.before) : (s.ahead n ts).Lexed := by
  obtain ⟨us, hus⟩ := hts
  unfold Cursor.Lexed
  rw [show (s.ahead n ts).source = s.source n from rfl, hs n, ← hus, List.append_assoc]
  exact List.suffix_append us _

theorem Fits.lexed_behind (hs : s.Fits) (hts : ts <:+ lexemes s.back) : (s.behind n ts).Lexed := by
  unfold Cursor.Lexed
  rw [show (s.behind n ts).source = s.source n from rfl, hs n]
  have hafter : (s.behind n ts).ahead <:+ s.after n := hts.map _
  exact hafter.trans ((List.suffix_cons _ _).trans (List.suffix_append _ _))

/-- The tokens in front of the name lie in the text in front of it. -/
theorem Fits.stop_le (hs : s.Fits) {t : Token} (ht : t ∈ s.before) :
    t.span.stop ≤ Text.byteLength s.front := by
  have hordered := (isTiling_tokens (s.source [])).ordered
  rw [tokens, hs [], List.append_assoc, List.cons_append, List.pairwise_append] at hordered
  exact hordered.2.2 t ht _ List.mem_cons_self

theorem Fits.slice_eq (hs : s.Fits) {t : Token} (ht : t ∈ s.before) (start : Nat) (n : Text) :
    (⟨start, t.span.stop⟩ : Span).slice (s.source n) =
      (⟨start, t.span.stop⟩ : Span).slice s.front := by
  unfold Slot.source Slot.lead
  rw [List.append_assoc]
  exact Span.slice_append_of_le (s := ⟨start, t.span.stop⟩) (hs.stop_le ht) _

end Slot

/-! ### Behind the name -/

section Behind

open Parse

/-- What stands in front of a source text changes nothing but positions. -/
theorem Stepwise.agreesAt_behind {p : Parse α} (hp : Stepwise p) (prior : Text) (c : Cursor) :
    AgreesAt (.behind prior) true p p c := by
  have hw : (Surroundings.behind prior).SharesEnd := trivial
  induction hp generalizing c with
  | pure a => exact .pure a
  | refuse expected => exact agreesAt_refuse expected
  | fail _ => exact agreesAt_fail _
  | kind => exact agreesAt_kind
  | name? => exact agreesAt_name?
  | skip n => exact agreesAt_skip n
  | skipWhile f =>
    refine agreesAt_of_ok rfl fun _ => ⟨.drop _ c, fun _ => ?_⟩
    unfold Parse.skipWhile
    rw [length_takeWhile_cursor (Or.inl hw), Surroundings.cursor_drop (Or.inl hw)]
  | skipGroup => exact agreesAt_skipGroup
  | skipBalanced => exact agreesAt_skipBalanced
  | notBefore words _ _ ihp ihq =>
    refine (agreesAt_atKeyword _).bind fun found d _ => .ite ?_ (ihq d)
    exact (agreesAt_beforeWord words).bind fun found d _ => ihp found d
  | bind _ _ ihp ihf => exact (ihp c).bind fun a d _ => ihf a d
  | withSource _ ih => exact agreesAt_withSource (ih c)
  | many _ ih => exact agreesAt_many fun d _ => ih d
  | @recursion _ p q _ h ih =>
    -- The same depth will do for both cursors, which have as many tokens ahead.
    intro hc
    have hlength : ((Surroundings.behind prior).cursor c).ahead.length < c.ahead.length + 1 := by
      simp [Surroundings.cursor]
    have hinside : ((Surroundings.behind prior).cursor c).Inside := by
      intro t ht
      obtain ⟨u, hu, rfl⟩ := List.mem_map.1 ht
      obtain ⟨heof, hstop⟩ := hc u hu
      refine ⟨heof, ?_⟩
      simp only [Token.span_shift, Span.shift, Surroundings.cursor, Text.byteLength_append]
      omega
    rw [h _ c hc (Nat.lt_succ_self _), h _ _ hinside hlength]
    exact ih (c.ahead.length + 1) c hc

variable {s : Slot} {m : Text} {ts : List Token} {d : Cursor}

/-- Behind the name nothing depends on the name. -/
theorem Stepwise.same_behind {p : Parse α} (hp : Stepwise p) {a : α} (hts : ts <:+ lexemes s.back)
    (h : p (s.behind m ts) = .ok a d) : ∃ us, us <:+ ts ∧ d = s.behind m us ∧
      ∀ n, p (s.behind n ts) = .ok a (s.behind n us) := by
  have hlexed : Cursor.Lexed ⟨s.back, ts⟩ := hts
  have hagrees (n : Text) := hp.agreesAt_behind (s.lead n) ⟨s.back, ts⟩
  cases hback : p ⟨s.back, ts⟩ with
  | error e d' =>
    have herror := h.symm.trans ((hagrees m).eq_error hlexed.inside hback trivial)
    cases herror
  | ok b d' =>
    have hok (n : Text) := (hagrees n).eq_ok hlexed.inside hback (Or.inl trivial)
    obtain ⟨source, us⟩ := d'
    have hreads := (hagrees m).reads hlexed.inside hback
    obtain rfl : source = s.back := hreads.source_eq
    have hsame := h.symm.trans (hok m)
    cases hsame
    exact ⟨us, hreads.suffix, rfl, hok⟩

end Behind

/-! ### In front of the name -/

/-- A reader that stops in front of these tokens has looked no further. Only behind the word `NOT`
is there a look at the next token but one. -/
def Stops (ts : List Token) : Prop := ts ≠ [] ∧ ts.map (·.kind) ≠ [.keyword .not]

theorem Stops.of_suffix {ts us : List Token} (h : Stops us) (hsuffix : us <:+ ts) : Stops ts := by
  obtain ⟨vs, rfl⟩ := hsuffix
  cases vs with
  | nil => exact h
  | cons v vs => exact ⟨List.cons_ne_nil _ _, by simpa using fun _ _ => h.1⟩

/-- A group that ends among some tokens does not depend on those behind them. -/
theorem groupLength_of_le {depth n : Nat} {ts us : List Token}
    (h : groupLength depth (ts ++ us) = some n) (hn : n ≤ ts.length) (vs : List Token) :
    groupLength depth (ts ++ vs) = some n := by
  induction ts generalizing depth n with
  | nil => exact absurd (groupLength_pos h) (Nat.not_lt.2 hn)
  | cons t ts ih =>
    have hrest {d : Nat} (h : (groupLength d (ts ++ us)).map (· + 1) = some n) :
        (groupLength d (ts ++ vs)).map (· + 1) = some n := by
      obtain ⟨k, hk, rfl⟩ := Option.map_eq_some_iff.1 h
      rw [ih hk (Nat.le_of_succ_le_succ hn)]
      rfl
    rw [List.cons_append, Parse.groupLength_cons] at h ⊢
    by_cases hopen : t.kind = .symbol .leftParen
    · rw [if_pos hopen] at h ⊢
      exact hrest h
    rw [if_neg hopen] at h ⊢
    by_cases hclose : t.kind = .symbol .rightParen
    · rw [if_pos hclose] at h ⊢
      by_cases hdepth : depth = 0
      · rwa [if_pos hdepth] at h ⊢
      · rw [if_neg hdepth] at h ⊢
        exact hrest h
    · rw [if_neg hclose] at h ⊢
      exact hrest h

/-- Where the rest of a statement ends among some tokens, those behind them do not matter. -/
theorem balancedLength_of_lt {depth n : Nat} {ts us : List Token} {x : Option Expected}
    (h : balancedLength depth (ts ++ us) = (n, x)) (hn : n < ts.length) (vs : List Token) :
    balancedLength depth (ts ++ vs) = (n, x) := by
  induction ts generalizing depth n with
  | nil => exact absurd hn (Nat.not_lt_zero _)
  | cons t ts ih =>
    have hrest {d : Nat} (h : (balancedLength d (ts ++ us)).map (· + 1) id = (n, x)) :
        (balancedLength d (ts ++ vs)).map (· + 1) id = (n, x) := by
      rcases hd : balancedLength d (ts ++ us) with ⟨k, y⟩
      rw [hd] at h
      cases h
      rw [ih hd (Nat.lt_of_succ_lt_succ hn)]
      rfl
    rw [List.cons_append, Parse.balancedLength_cons] at h ⊢
    by_cases hopen : t.kind = .symbol .leftParen
    · rw [if_pos hopen] at h ⊢
      exact hrest h
    rw [if_neg hopen] at h ⊢
    by_cases hclose : t.kind = .symbol .rightParen
    · rw [if_pos hclose] at h ⊢
      by_cases hdepth : depth = 0
      · rwa [if_pos hdepth] at h ⊢
      · rw [if_neg hdepth] at h ⊢
        exact hrest h
    rw [if_neg hclose] at h ⊢
    by_cases hsemicolon : t.kind = .symbol .semicolon
    · rwa [if_pos hsemicolon] at h ⊢
    rw [if_neg hsemicolon] at h ⊢
    split at h
    · rwa [if_pos rfl] at h ⊢
    · rw [if_neg Bool.false_ne_true] at h ⊢
      exact hrest h

theorem length_takeWhile_of_lt {f : Token → Bool} {ts us : List Token}
    (h : ((ts ++ us).takeWhile f).length < ts.length) (vs : List Token) :
    ((ts ++ vs).takeWhile f).length = ((ts ++ us).takeWhile f).length := by
  rw [List.takeWhile_append] at h
  split at h
  · rw [List.length_append] at h
    omega
  · rename_i hne
    rw [List.takeWhile_append, List.takeWhile_append, if_neg hne, if_neg hne]

namespace Slot

variable {s : Slot} {m n : Text} {ts us : List Token}

theorem source_ahead : (s.ahead n ts).source = s.source n := rfl

theorem current_ahead {t : Token} : (s.ahead n (t :: ts)).current = t := rfl

theorem current_eq (h : ts ≠ []) : (s.ahead m ts).current = (s.ahead n ts).current := by
  cases ts with
  | nil => exact absurd rfl h
  | cons t ts => rfl

theorem drop_ahead {k : Nat} (h : k ≤ ts.length) :
    (s.ahead n ts).drop k = s.ahead n (ts.drop k) := by
  rw [Cursor.drop_eq]
  simp only [ahead, List.drop_append_of_le_length h]

theorem of_drop_ahead {k : Nat} (h : (s.ahead n ts).drop k = s.ahead n us) :
    k ≤ ts.length ∧ us = ts.drop k := by
  have hlength := congrArg (fun c => c.ahead.length) h
  simp only [Cursor.ahead_drop, List.length_drop, length_ahead] at hlength
  have hk : k ≤ ts.length := by omega
  rw [drop_ahead hk] at h
  exact ⟨hk, (ahead_inj h).symm⟩

/-- The tokens that are read are the same, and so is their text. -/
theorem Fits.textTo_eq (hs : s.Fits) (hts : ts <:+ s.before) (m n : Text) :
    (s.ahead m ts).textTo (s.ahead m us) = (s.ahead n ts).textTo (s.ahead n us) := by
  have htake (n : Text) : (s.ahead n ts).ahead.take
      ((s.ahead n ts).ahead.length - (s.ahead n us).ahead.length) =
        ts.take (ts.length - us.length) := by
    rw [length_ahead, length_ahead, show ts.length + 1 + (lexemes s.back).length -
      (us.length + 1 + (lexemes s.back).length) = ts.length - us.length by omega]
    exact List.take_append_of_le_length (Nat.sub_le _ _)
  unfold Cursor.textTo
  rw [htake m, htake n]
  dsimp only
  cases (ts.take (ts.length - us.length)).head? with
  | none => rfl
  | some first =>
    cases hlast : (ts.take (ts.length - us.length)).getLast? with
    | none => rfl
    | some last =>
      have hmem := hts.mem (List.mem_of_mem_take (List.mem_of_getLast? hlast))
      exact (hs.slice_eq hmem _ m).trans (hs.slice_eq hmem _ n).symm

end Slot

section Ahead

open Parse
open AgreesAt (bind_ok)

variable {s : Slot} {m n : Text}

theorem Stepwise.ahead_cases (hs : s.Fits) {p : Parse α} (hp : Stepwise p) {a : α} {d : Cursor}
    {ts : List Token} (hts : ts <:+ s.before) (h : p (s.ahead m ts) = .ok a d) :
    (∃ us, us <:+ ts ∧ d = s.ahead m us) ∨
      ∃ us, us <:+ lexemes s.back ∧ d = s.behind m us := by
  have hreads := hp.reads (hs.lexed_ahead hts) h
  exact Slot.cases_of_suffix hreads.source_eq hreads.suffix

/-- What stops in front of the name has begun there. -/
theorem Stepwise.exists_ahead (hs : s.Fits) {p : Parse α} {f : α → Parse β} (hp : Stepwise p)
    (hf : ∀ a, Stepwise (f a)) {b : β} {ts us : List Token} (hts : ts <:+ s.before)
    (h : (p >>= f) (s.ahead m ts) = .ok b (s.ahead m us)) :
    ∃ a vs, vs <:+ ts ∧ us <:+ vs ∧ p (s.ahead m ts) = .ok a (s.ahead m vs) ∧
      f a (s.ahead m vs) = .ok b (s.ahead m us) := by
  obtain ⟨a, d, hpa, hfa⟩ := Parse.exists_of_bind_ok h
  obtain ⟨vs, hvs, rfl⟩ | ⟨vs, hvs, rfl⟩ := hp.ahead_cases hs hts hpa
  · obtain ⟨us', hus, heq⟩ | ⟨us', hus, heq⟩ := (hf a).ahead_cases hs (hvs.trans hts) hfa
    · obtain rfl := Slot.ahead_inj heq
      exact ⟨a, vs, hvs, hus, hpa, hfa⟩
    · exact absurd heq (Slot.ahead_ne_behind hus)
  · obtain ⟨us', hus, heq, -⟩ := (hf a).same_behind hvs hfa
    exact absurd heq (Slot.ahead_ne_behind (hus.trans hvs))

theorem ok_inj {a b : α} {c d : Cursor}
    (h : (EStateM.Result.ok a c : EStateM.Result ParseError Cursor α) = .ok b d) :
    a = b ∧ c = d := by
  cases h
  exact ⟨rfl, rfl⟩

theorem name?_same_ahead (hs : s.Fits) {ts us : List Token} (hts : ts <:+ s.before) (hus : us ≠ [])
    {a : Option Text} (h : name? (s.ahead m ts) = .ok a (s.ahead m us)) (n : Text) :
    name? (s.ahead n ts) = .ok a (s.ahead n us) := by
  obtain ⟨ha, heq⟩ := ok_inj h
  obtain rfl := Slot.ahead_inj heq
  obtain ⟨t, ts, rfl⟩ := List.exists_cons_of_ne_nil hus
  have hslice (n : Text) := hs.slice_eq (hts.mem List.mem_cons_self) t.span.start n
  have hsame : t.span.slice (s.source n) = t.span.slice (s.source m) :=
    (hslice n).trans (hslice m).symm
  subst ha
  unfold name?
  rw [Slot.current_ahead, Slot.current_ahead, Slot.source_ahead, Slot.source_ahead, hsame]

theorem skipWhile_same_ahead {f : TokenKind → Bool} {ts us : List Token} (hus : us ≠ [])
    (h : Parse.skipWhile f (s.ahead m ts) = .ok () (s.ahead m us)) (n : Text) :
    Parse.skipWhile f (s.ahead n ts) = .ok () (s.ahead n us) := by
  obtain ⟨hk, rfl⟩ := Slot.of_drop_ahead (ok_inj h).2
  have hlt := List.length_lt_of_drop_ne_nil hus
  have hsame := length_takeWhile_of_lt hlt (s.token n :: s.after n)
  unfold Parse.skipWhile
  rw [← Slot.drop_ahead hk]
  exact congrArg (fun k => EStateM.Result.ok () ((s.ahead n ts).drop k)) hsame

theorem skipGroup_same_ahead {ts us : List Token}
    (h : skipGroup (s.ahead m ts) = .ok () (s.ahead m us)) (n : Text) :
    skipGroup (s.ahead n ts) = .ok () (s.ahead n us) := by
  cases hlength : groupLength 0 (s.ahead m ts).ahead with
  | none =>
    rw [skipGroup_of_none hlength] at h
    cases h
  | some k =>
    rw [skipGroup_of_some hlength] at h
    obtain ⟨hk, rfl⟩ := Slot.of_drop_ahead (ok_inj h).2
    rw [skipGroup_of_some (c := s.ahead n ts) (groupLength_of_le hlength hk _),
      Slot.drop_ahead hk]

theorem skipBalanced_same_ahead {ts us : List Token} (hus : us ≠ [])
    (h : skipBalanced (s.ahead m ts) = .ok () (s.ahead m us)) (n : Text) :
    skipBalanced (s.ahead n ts) = .ok () (s.ahead n us) := by
  rcases hlength : balancedLength 0 (s.ahead m ts).ahead with ⟨k, _ | expected⟩
  · rw [skipBalanced_of_none hlength] at h
    obtain ⟨hk, rfl⟩ := Slot.of_drop_ahead (ok_inj h).2
    have hlt := List.length_lt_of_drop_ne_nil hus
    rw [skipBalanced_of_none (c := s.ahead n ts) (balancedLength_of_lt hlength hlt _),
      Slot.drop_ahead hk]
  · rw [skipBalanced_of_some hlength] at h
    cases h

theorem many_same_ahead (hs : s.Fits) {step : Parse (Option α)} (hstep : Stepwise step)
    (ih : ∀ {a : Option α} {ts us : List Token}, ts <:+ s.before → Stops us →
      step (s.ahead m ts) = .ok a (s.ahead m us) → step (s.ahead n ts) = .ok a (s.ahead n us))
    {as : List α} {ts us : List Token} (hts : ts <:+ s.before) (hus : Stops us)
    (h : many step (s.ahead m ts) = .ok as (s.ahead m us)) :
    many step (s.ahead n ts) = .ok as (s.ahead n us) := by
  induction hn : ts.length using Nat.strongRecOn generalizing ts as with
  | ind k ih' =>
    have hlength {us : List Token} : (s.ahead n us).ahead.length < (s.ahead n ts).ahead.length ↔
        (s.ahead m us).ahead.length < (s.ahead m ts).ahead.length := by
      simp only [Slot.length_ahead]
    obtain ⟨hnone, rfl⟩ | ⟨a, hsome, hstuck, rfl⟩ | ⟨a, e, as', hsome, hlt, hrest, rfl⟩ :=
      many_cases h
    · exact many_of_none (ih hts hus hnone)
    · exact many_of_stuck (ih hts hus hsome) (mt hlength.1 hstuck)
    · obtain ⟨vs, hvs, rfl⟩ | ⟨vs, hvs, rfl⟩ := hstep.ahead_cases hs hts hsome
      · obtain ⟨us', hus', heq⟩ | ⟨us', hus', heq⟩ :=
          (Stepwise.many hstep).ahead_cases hs (hvs.trans hts) hrest
        · obtain rfl := Slot.ahead_inj heq
          have hshorter : vs.length < k := by
            simp only [Slot.length_ahead] at hlt
            omega
          rw [many_of_some (ih hts (hus.of_suffix hus') hsome) (hlength.2 hlt),
            ih' _ hshorter (hvs.trans hts) hrest rfl]
        · exact absurd heq (Slot.ahead_ne_behind hus')
      · obtain ⟨us', hus', heq, -⟩ := (Stepwise.many hstep).same_behind hvs hrest
        exact absurd heq (Slot.ahead_ne_behind (hus'.trans hvs))

/-- A reader that stops in front of the name does the same whatever the name is. -/
theorem Stepwise.same_ahead (hs : s.Fits) {p : Parse α} (hp : Stepwise p) (m n : Text) {a : α}
    {ts us : List Token} (hts : ts <:+ s.before) (hus : Stops us)
    (h : p (s.ahead m ts) = .ok a (s.ahead m us)) :
    p (s.ahead n ts) = .ok a (s.ahead n us) := by
  induction hp generalizing ts us with
  | pure b =>
    obtain ⟨rfl, heq⟩ := ok_inj h
    obtain rfl := Slot.ahead_inj heq
    rfl
  | refuse expected => cases h
  | fail _ => cases h
  | kind =>
    obtain ⟨rfl, heq⟩ := ok_inj h
    obtain rfl := Slot.ahead_inj heq
    rw [Slot.current_eq (n := n) hus.1]
    rfl
  | name? => exact name?_same_ahead hs hts hus.1 h n
  | skip k =>
    obtain ⟨hk, rfl⟩ := Slot.of_drop_ahead (ok_inj h).2
    rw [← Slot.drop_ahead hk]
    rfl
  | skipWhile f => exact skipWhile_same_ahead hus.1 h n
  | skipGroup => exact skipGroup_same_ahead h n
  | skipBalanced => exact skipBalanced_same_ahead hus.1 h n
  | @notBefore _ words p q hp hq ihp ihq =>
    obtain ⟨us', hus', heq⟩ | ⟨us', hus', heq⟩ :=
      (Stepwise.notBefore words hp hq).ahead_cases hs hts h
    · obtain rfl := Slot.ahead_inj heq
      obtain ⟨t, ts, rfl⟩ := List.exists_cons_of_ne_nil (hus.of_suffix hus').1
      have hat (n : Text) : atKeyword .not (s.ahead n (t :: ts)) =
          .ok (decide (t.kind = .keyword .not)) (s.ahead n (t :: ts)) := rfl
      rw [bind_ok _ _ (hat m)] at h
      rw [bind_ok _ _ (hat n)]
      by_cases hnot : t.kind = .keyword .not
      · rw [if_pos (decide_eq_true hnot)] at h ⊢
        obtain ⟨u, ts, rfl⟩ : ∃ u us, ts = u :: us := by
          refine List.exists_cons_of_ne_nil fun hnil => ?_
          exact (hus.of_suffix hus').2 (by rw [hnil, List.map_singleton, hnot])
        exact ihp _ hts hus h
      · rw [if_neg (by simpa using hnot)] at h ⊢
        exact ihq hts hus h
    · exact absurd heq (Slot.ahead_ne_behind hus')
  | bind hp hf ihp ihf =>
    obtain ⟨b, vs, hvs, hus', hpb, hfb⟩ := hp.exists_ahead hs hf hts h
    rw [bind_ok _ _ (ihp hts (hus.of_suffix hus') hpb)]
    exact ihf b (hvs.trans hts) hus hfb
  | @withSource _ p hp ih =>
    cases hpm : p (s.ahead m ts) with
    | error e d =>
      rw [withSource_of_error hpm] at h
      cases h
    | ok b d =>
      rw [withSource_of_ok hpm] at h
      obtain ⟨rfl, rfl⟩ := ok_inj h
      rw [withSource_of_ok (ih hts hus hpm), hs.textTo_eq hts m n]
  | many hstep ih => exact many_same_ahead hs hstep ih hts hus h
  | @recursion _ p q _ heq ih =>
    have hlength (n : Text) :
        (s.ahead n ts).ahead.length < ts.length + 1 + (lexemes s.back).length + 1 := by
      rw [Slot.length_ahead]
      exact Nat.lt_succ_self _
    have hinside (n : Text) : (s.ahead n ts).Inside := (hs.lexed_ahead hts).inside
    rw [heq _ _ (hinside m) (hlength m)] at h
    rw [heq _ _ (hinside n) (hlength n)]
    exact ih _ hts hus h

end Ahead

end SchemaModels.Ddl
