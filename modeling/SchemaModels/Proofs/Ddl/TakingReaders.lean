import SchemaModels.Proofs.Ddl.StatementAgreement
import SchemaModels.Proofs.Ddl.TableGrammar

/-!
# Readers that take a clause

A reader takes a clause of the grammar if the tokens that it leaves behind itself, where it
succeeds, are of that clause (`TakesAt`). One reader after another takes one clause after another,
and so on for a choice, for repetition and for groups.
-/

namespace SchemaModels.Ddl

open Computability

/-- Where the reader succeeds, it has taken the clause. -/
def TakesAt (L : Clause) (p : Parse α) (c : Cursor) : Prop :=
  ∀ a d, p c = .ok a d → ∃ ws ∈ L, c.ahead = tokensOf ws ++ d.ahead

namespace TakesAt

open AgreesAt (bind_ok map_ok map_error)

variable {L M : Clause} {c : Cursor} {p : Parse α} {f : α → Parse β}

theorem pure (a : α) : TakesAt 1 (Pure.pure a) c := by
  intro b d h
  cases h
  exact ⟨[], rfl, rfl⟩

theorem inl (h : TakesAt L p c) : TakesAt (L + M) p c := by
  intro a d hp
  obtain ⟨ws, hws, hahead⟩ := h a d hp
  exact ⟨ws, .inl hws, hahead⟩

theorem inr (h : TakesAt M p c) : TakesAt (L + M) p c := by
  intro a d hp
  obtain ⟨ws, hws, hahead⟩ := h a d hp
  exact ⟨ws, .inr hws, hahead⟩

theorem anyOf {ι : Type} {L : ι → Clause} (i : ι) (h : TakesAt (L i) p c) :
    TakesAt (Clause.anyOf L) p c := by
  intro a d hp
  obtain ⟨ws, hws, hahead⟩ := h a d hp
  exact ⟨ws, ⟨i, hws⟩, hahead⟩

theorem bind (hp : TakesAt L p c) (hf : ∀ a d, TakesAt M (f a) d) :
    TakesAt (L * M) (p >>= f) c := by
  intro b e h
  obtain ⟨a, d, hpa, hfa⟩ := Parse.exists_of_bind_ok h
  obtain ⟨ws, hws, hahead⟩ := hp a d hpa
  obtain ⟨ws', hws', hahead'⟩ := hf a d b e hfa
  refine ⟨ws ++ ws', Language.append_mem_mul hws hws', ?_⟩
  rw [hahead, hahead', tokensOf_append, List.append_assoc]

/-- What is made of the result takes nothing more. -/
theorem bind_pure (hp : TakesAt L p c) (g : α → β) :
    TakesAt L (p >>= fun a => Pure.pure (g a)) c := by
  intro b e h
  obtain ⟨a, d, hpa, hfa⟩ := Parse.exists_of_bind_ok h
  cases hfa
  exact hp a _ hpa

theorem map (g : α → β) (hp : TakesAt L p c) : TakesAt L (g <$> p) c := by
  intro b d h
  cases hpc : p c with
  | error e d' =>
      rw [map_error g hpc] at h
      cases h
  | ok a d' =>
      rw [map_ok g hpc] at h
      cases h
      exact hp a d hpc

theorem ite {q : Prop} [Decidable q] {p p' : Parse α} (h : q → TakesAt L p c)
    (h' : ¬ q → TakesAt L p' c) : TakesAt L (if q then p else p') c := by
  split
  · exact h ‹q›
  · exact h' ‹¬ q›

/-- What a reader that takes nothing finds may be used. -/
theorem bind_of_ok {a : α} (hp : p c = .ok a c) (hf : TakesAt L (f a) c) :
    TakesAt L (p >>= f) c := by
  intro b d h
  rw [bind_ok p f hp] at h
  exact hf b d h

end TakesAt

namespace Parse

open Clause

variable {c : Cursor} {L M : Clause} {α β : Type}

/-! ### One token -/

theorem takesAt_refuse (expected : Expected) : TakesAt L (refuse expected : Parse α) c := nofun

theorem takesAt_fail (cause : ParseError.Cause) : TakesAt L (fail cause : Parse α) c := nofun

/-- A choice by the kind of the current token. -/
theorem takesAt_kind_bind {f : TokenKind → Parse α} (hf : TakesAt L (f c.current.kind) c) :
    TakesAt L (kind >>= f) c := .bind_of_ok rfl hf

/-- Takes a token that passes a test. -/
theorem takesAt_advance {test : TokenKind → Bool}
    {h : ∀ k, test k = true → isDelimiter k = false} (htest : test c.current.kind = true)
    (heof : test .eof = false) : TakesAt (reading test h) advance c := by
  intro a d hadvance
  cases hadvance
  have hne : c.ahead ≠ [] := by
    refine Cursor.ahead_ne_nil fun hkind => ?_
    rw [hkind, heof] at htest
    cases htest
  exact ⟨Role.read.mark [c.current], ⟨_, htest, rfl⟩, Cursor.ahead_eq_cons hne⟩

/-- Takes a token of which the kind is known. -/
theorem takesAt_advance_of_kind {k : TokenKind} (hk : c.current.kind = k)
    (hplain : isDelimiter k = false) (heof : k ≠ .eof) :
    TakesAt (Grammar.exactly k hplain) advance c :=
  takesAt_advance (decide_eq_true hk) (decide_eq_false heof.symm)

/-- Takes a keyword, and what stands behind it. -/
theorem takesAt_keywordThen {behind : Keyword → Clause} {k : Keyword}
    (hk : c.current.kind = .keyword k) {f : Unit → Parse α}
    (hf : ∀ d, TakesAt (behind k) (f ()) d) :
    TakesAt (Grammar.keywordThen behind) (advance >>= f) c :=
  .anyOf k ((takesAt_advance_of_kind hk rfl nofun).bind fun _ d => hf d)

/-- Takes a token without a look at it. -/
theorem takesAt_dropped : TakesAt dropped advance c := by
  intro a d hadvance
  cases hadvance
  refine ⟨Role.dropped.mark (c.ahead.take 1), ⟨_, List.length_take_le 1 _, rfl⟩, ?_⟩
  rw [tokensOf_mark, Cursor.ahead_advance, ← List.drop_one, List.take_append_drop]

/-! ### Tokens that may be there -/

/-- The reader takes one token of the clause, or says that there is none. -/
def Accepts (L : Clause) (p : Parse Bool) : Prop :=
  ∀ c, p c = .ok true c.advance ∧ TakesAt L advance c ∨ p c = .ok false c

namespace Accepts

variable {p : Parse Bool} {f : Bool → Parse α}

theorem of_test {test : TokenKind → Bool} {h : ∀ k, test k = true → isDelimiter k = false}
    (heof : test .eof = false)
    (hp : ∀ c, p c = if test c.current.kind then .ok true c.advance else .ok false c) :
    Accepts (reading test h) p := by
  intro c
  by_cases htest : test c.current.kind = true
  · exact .inl ⟨(hp c).trans (if_pos htest), takesAt_advance htest heof⟩
  · exact .inr ((hp c).trans (if_neg htest))

theorem bind (h : Accepts L p) (htrue : ∀ d, TakesAt M (f true) d) {N : Clause}
    (hfalse : TakesAt N (f false) c) : TakesAt (L * M + N) (p >>= f) c := by
  obtain ⟨hp, hadvance⟩ | hp := h c
  · intro a d hf
    rw [AgreesAt.bind_ok p f hp] at hf
    obtain ⟨ws, hws, hahead⟩ := hadvance () c.advance rfl
    obtain ⟨ws', hws', hahead'⟩ := htrue c.advance a d hf
    refine ⟨ws ++ ws', .inl (Language.append_mem_mul hws hws'), ?_⟩
    rw [hahead, hahead', tokensOf_append, List.append_assoc]
  · exact .inr (.bind_of_ok hp hfalse)

/-- The token alone, or what is read where it is not there. -/
theorem bind_pure (h : Accepts L p) {a : α} (htrue : f true = pure a)
    (hfalse : TakesAt M (f false) c) : TakesAt (L + M) (p >>= f) c := by
  obtain ⟨hp, hadvance⟩ | hp := h c
  · intro b d hf
    rw [AgreesAt.bind_ok p f hp, htrue] at hf
    cases hf
    exact hadvance.inl () _ rfl
  · exact .inr (.bind_of_ok hp hfalse)

theorem takesAt (h : Accepts L p) : TakesAt (L + 1) p c := by
  obtain ⟨hp, hadvance⟩ | hp := h c
  · intro a d hpa
    rw [hp] at hpa
    cases hpa
    exact hadvance.inl _ _ rfl
  · intro a d hpa
    rw [hp] at hpa
    cases hpa
    exact ⟨[], .inr rfl, rfl⟩

end Accepts

theorem accepts_of_kind {k : TokenKind} (hplain : isDelimiter k = false) (heof : k ≠ .eof) :
    Accepts (Grammar.exactly k hplain) (accept k) := by
  refine .of_test (decide_eq_false heof.symm) fun c => ?_
  rw [accept_eq]
  simp

theorem accepts_keyword (k : Keyword) : Accepts (Grammar.keyword k) (acceptKeyword k) :=
  accepts_of_kind rfl nofun

theorem accepts_symbol {s : Symbol} (hs : isDelimiter (.symbol s) = false) :
    Accepts (Grammar.symbol s hs) (acceptSymbol s) := accepts_of_kind hs nofun

theorem accepts_word (words : List Text) : Accepts (Grammar.word words) (acceptWord words) :=
  .of_test rfl (acceptWord_eq words)

theorem takesAt_expectKeyword (k : Keyword) : TakesAt (Grammar.keyword k) (expectKeyword k) c := by
  obtain ⟨hpresent, hadvance⟩ | habsent := accepts_keyword k c
  · intro a d hexpect
    have haccepted : expectKeyword k c = .ok () c.advance :=
      AgreesAt.bind_ok (acceptKeyword k) _ hpresent
    rw [haccepted] at hexpect
    cases hexpect
    exact hadvance _ _ rfl
  · exact .bind_of_ok habsent (takesAt_refuse _)

/-- A symbol that is expected is the current token, and is taken. -/
theorem ahead_of_expectSymbol {s : Symbol} {d : Cursor} (h : expectSymbol s c = .ok () d) :
    ∃ t, c.ahead = t :: d.ahead ∧ t.kind = .symbol s := by
  obtain ⟨present, e, haccept, hrest⟩ := exists_of_bind_ok h
  rw [acceptSymbol, accept_eq] at haccept
  split at haccept
  · rename_i hkind
    cases haccept
    cases hrest
    have hne : c.ahead ≠ [] := Cursor.ahead_ne_nil (by simp [hkind])
    exact ⟨c.current, Cursor.ahead_eq_cons hne, hkind⟩
  · cases haccept
    cases hrest

/-! ### Names and literals -/

/-- A token that is a name is looked at. -/
theorem takesAt_advance_of_name? {n : Option Text} {d : Cursor} (h : name? c = .ok n d) :
    d = c ∧ (n.isSome = true → TakesAt Grammar.name advance c) := by
  unfold name? at h
  cases hkind : c.current.kind with
  | identifier m =>
      rw [hkind] at h
      cases h
      exact ⟨rfl, fun _ => takesAt_advance (by rw [hkind]) rfl⟩
  | keyword k =>
      rw [hkind] at h
      cases h
      exact ⟨rfl, fun _ => takesAt_advance (by rw [hkind]) rfl⟩
  | _ =>
      rw [hkind] at h
      cases h
      exact ⟨rfl, nofun⟩

theorem takesAt_name (expected : Expected) : TakesAt Grammar.name (name expected) c := by
  intro a d h
  obtain ⟨n, e, hname, hrest⟩ := exists_of_bind_ok h
  obtain ⟨rfl, hadvance⟩ := takesAt_advance_of_name? hname
  cases n with
  | none => cases hrest
  | some n =>
      cases hrest
      exact hadvance rfl _ _ rfl

theorem takesAt_string : TakesAt Grammar.string string c := by
  refine takesAt_kind_bind ?_
  split
  · rename_i s hk
    exact (takesAt_advance (by rw [hk]) rfl).bind_pure fun _ => s
  · exact takesAt_refuse _

theorem takesAt_integer : TakesAt Grammar.integer integer c := by
  refine takesAt_kind_bind ?_
  split
  · rename_i n hk
    exact (takesAt_advance (by rw [hk]) rfl).bind_pure fun _ => n
  · exact takesAt_refuse _

/-! ### Repetition -/

theorem takesAt_many {step : Parse (Option α)} (h : ∀ d, TakesAt L step d) :
    TakesAt L∗ (many step) c := by
  induction hn : c.ahead.length using Nat.strongRecOn generalizing c with
  | ind n ih =>
      intro as e hmany
      have hlast {ws : List TakenToken} (hws : ws ∈ L) : ws ∈ L∗ :=
        Set.mem_of_mem_of_subset hws (le_kstar (a := L.language))
      obtain ⟨hs, rfl⟩ | ⟨a, hs, -, rfl⟩ | ⟨a, d, as', hs, hlt, hrest, rfl⟩ := many_cases hmany
      · obtain ⟨ws, hws, hahead⟩ := h c none e hs
        exact ⟨ws, hlast hws, hahead⟩
      · -- A step that takes nothing is the last one.
        obtain ⟨ws, hws, hahead⟩ := h c (some a) e hs
        exact ⟨ws, hlast hws, hahead⟩
      · obtain ⟨ws, hws, hahead⟩ := h c (some a) d hs
        obtain ⟨ws', hws', hahead'⟩ := ih _ (hn ▸ hlt) rfl as' e hrest
        have hmem : ws ++ ws' ∈ L∗ := Set.mem_of_mem_of_subset
          (Language.append_mem_mul hws hws') (mul_kstar_le_kstar (a := L.language))
        refine ⟨ws ++ ws', hmem, ?_⟩
        rw [hahead, hahead', tokensOf_append, List.append_assoc]

theorem takesAt_commaSeparated {item : Parse α} (h : ∀ d, TakesAt L item d) :
    TakesAt (Grammar.separated L) (commaSeparated item) c := by
  refine (h c).bind fun first _ => ?_
  refine (takesAt_many fun d => ?_).bind_pure fun others => first :: others
  exact (accepts_symbol rfl).bind (fun d' => .map some (h d')) (.pure none)

/-! ### Groups -/

theorem takesAt_withSource {p : Parse α} (h : TakesAt L p c) : TakesAt L (withSource p) c := by
  intro a d hsource
  cases hp : p c with
  | error e d' =>
      rw [withSource_of_error hp] at hsource
      cases hsource
  | ok b d' =>
      rw [withSource_of_ok hp] at hsource
      cases hsource
      exact h b d hp

theorem takesAt_sourceOf {p : Parse α} (h : TakesAt L p c) : TakesAt L (sourceOf p) c :=
  (takesAt_withSource h).bind_pure fun x => x.2

theorem takesAt_parenthesized {content : Parse α} (h : ∀ d, TakesAt L content d) :
    TakesAt (group L) (parenthesized content) c := by
  intro a e hparens
  obtain ⟨_, d, hopen, hparens⟩ := exists_of_bind_ok (p := expectSymbol .leftParen) hparens
  obtain ⟨b, d', hcontent, hparens⟩ := exists_of_bind_ok hparens
  obtain ⟨_, e', hclose, hparens⟩ := exists_of_bind_ok (p := expectSymbol .rightParen) hparens
  cases hparens
  obtain ⟨o, ho, hoKind⟩ := ahead_of_expectSymbol hopen
  obtain ⟨ws, hws, hahead⟩ := h d _ d' hcontent
  obtain ⟨cl, hcl, hclKind⟩ := ahead_of_expectSymbol hclose
  refine ⟨_, ⟨o, cl, ws, hoKind, hclKind, hws, rfl⟩, ?_⟩
  rw [ho, hahead, hcl, tokensOf_append]
  simp [tokensOf]

theorem takesAt_rawGroup : TakesAt captured rawGroup c := by
  refine takesAt_sourceOf fun a e hgroup => ?_
  obtain ⟨_, d, hopen, hskip⟩ := exists_of_bind_ok (p := expectSymbol .leftParen) hgroup
  obtain ⟨o, ho, hoKind⟩ := ahead_of_expectSymbol hopen
  cases hlength : groupLength 0 d.ahead with
  | none =>
      rw [skipGroup_of_none hlength] at hskip
      cases hskip
  | some n =>
      rw [skipGroup_of_some hlength] at hskip
      cases hskip
      obtain ⟨ts, cl, hts, hclKind, hbalanced⟩ := exists_of_groupLength hlength
      refine ⟨_, ⟨o, cl, ts, hoKind, hclKind, hbalanced, rfl⟩, ?_⟩
      rw [tokensOf_mark, Cursor.ahead_drop, ho]
      simpa using hts

theorem takesAt_balancedTail : TakesAt balanced balancedTail c := by
  refine (takesAt_sourceOf fun a d hskip => ?_).bind_pure Text.trim
  rcases hlength : balancedLength 0 c.ahead with ⟨n, _ | expected⟩
  · rw [skipBalanced_of_none hlength] at hskip
    cases hskip
    obtain ⟨hbalanced, hsemicolon⟩ := balanced_of_balancedLength hlength
    refine ⟨_, ⟨_, hbalanced, hsemicolon, rfl⟩, ?_⟩
    rw [tokensOf_mark, Cursor.ahead_drop, List.take_append_drop]
  · rw [skipBalanced_of_some hlength] at hskip
    cases hskip

end Parse

end SchemaModels.Ddl
