import SchemaModels.Proofs.Ddl.DeclaredNames
import SchemaModels.Proofs.Ddl.FreshNames

/-!
# Readers over a name

Two source texts differ in one name, which stands in backquotes in both and is fresh in the first
one. A reader that yields the fresh name has gone over its place, and yields in the second text the
same with the other name in it (`Renames`). For a reader that is put together from others this
follows from what they do in front of the name (`Passes`), over it and behind it (`Carries`).
-/

namespace SchemaModels.Ddl

open Parse
open AgreesAt (bind_ok)

/-- The second name where the first one is, and every other name as it is. -/
def replaced (m n x : Text) : Text := if x = m then n else x

theorem replaced_self (m n : Text) : replaced m n m = n := if_pos rfl

theorem replaced_of_ne {m x : Text} (h : x ≠ m) (n : Text) : replaced m n x = x := if_neg h

theorem Naming.rename_of_not_mem (N : Naming α) {m : Text} {a : α} (h : m ∉ N.names a)
    (n : Text) : N.rename (replaced m n) a = a :=
  N.rename_eq_self fun x hx => replaced_of_ne (fun heq : x = m => h (heq ▸ hx)) n

/-- In front of the name the reader does the same in both texts. A guarded one need not do so where
it stops at the name itself. -/
structure Passes (s : Slot) (m n : Text) (guarded : Bool) (p : Parse α) : Prop where
  stepwise : Stepwise p
  same {a : α} {ts us : List Token} : ts <:+ s.before → (guarded = true → Stops us) →
    p (s.ahead m ts) = .ok a (s.ahead m us) → p (s.ahead n ts) = .ok a (s.ahead n us)

/-- Behind the name the second reader yields what the first one does, but for names. -/
def Carries (s : Slot) (m : Text) (rename : α → α) (p q : Parse α) : Prop :=
  ∀ us a d, us <:+ lexemes s.back → p (s.behind m us) = .ok a d →
    q (s.behind m us) = .ok (rename a) d

/-- What the reader yields has the first name in it only if the reader goes over its place; in the
second text it then yields the same with the second name. A guarded one does not begin at the name
itself. -/
structure Renames (s : Slot) (m n : Text) (guarded : Bool) (N : Naming α) (p : Parse α) :
    Prop where
  stepwise : Stepwise p
  crosses {c d : Cursor} {a : α} : s.At m c → p c = .ok a d → m ∈ N.names a →
    ∃ ts us, ts <:+ s.before ∧ us <:+ lexemes s.back ∧ c = s.ahead m ts ∧ d = s.behind m us ∧
      (guarded = true → Stops ts) ∧
      p (s.ahead n ts) = .ok (N.rename (replaced m n) a) (s.behind n us)

variable {s : Slot} {m n : Text} {g g' : Bool} {p q : Parse α} {f f' : α → Parse β}
  {N : Naming α} {M : Naming β}

theorem Slot.At.of_ahead (hs : s.Fits) (hp : Stepwise p) {c : Cursor} {a : α} {us : List Token}
    (hc : s.At m c) (h : p c = .ok a (s.ahead m us)) :
    ∃ ts, ts <:+ s.before ∧ us <:+ ts ∧ c = s.ahead m ts := by
  obtain ⟨ts, hts, rfl⟩ | ⟨vs, hvs, rfl⟩ := hc
  · obtain ⟨us', hus, heq⟩ | ⟨us', hus, heq⟩ := hp.ahead_cases hs hts h
    · exact ⟨ts, hts, Slot.ahead_inj heq ▸ hus, rfl⟩
    · exact absurd heq (Slot.ahead_ne_behind hus)
  · obtain ⟨us', hus, heq, -⟩ := hp.same_behind hvs h
    exact absurd heq (Slot.ahead_ne_behind (hus.trans hvs))

/-! ### In front of the name -/

namespace Passes

theorem of_stepwise (hs : s.Fits) (hp : Stepwise p) : Passes s m n true p :=
  ⟨hp, fun hts hus h => hp.same_ahead hs m n hts (hus rfl) h⟩

theorem pure (a : α) : Passes s m n g (Pure.pure a) := by
  refine ⟨.pure a, fun _ _ h => ?_⟩
  obtain ⟨rfl, heq⟩ := ok_inj h
  obtain rfl := Slot.ahead_inj heq
  rfl

theorem refuse (expected : Expected) : Passes s m n g (Parse.refuse expected : Parse α) :=
  ⟨.refuse expected, fun _ _ h => nomatch h⟩

theorem advance : Passes s m n g Parse.advance := by
  refine ⟨.advance, fun _ _ h => ?_⟩
  obtain ⟨hk, rfl⟩ := Slot.of_drop_ahead (k := 1) (ok_inj h).2
  rw [← Slot.drop_ahead hk]
  rfl

theorem bind (hs : s.Fits) (hp : Passes s m n false p) (hf : ∀ a, Passes s m n g (f a)) :
    Passes s m n g (p >>= f) := by
  refine ⟨hp.stepwise.bind fun a => (hf a).stepwise, fun hts hus h => ?_⟩
  obtain ⟨b, vs, hvs, -, hpb, hfb⟩ :=
    hp.stepwise.exists_ahead hs (fun a => (hf a).stepwise) hts h
  rw [bind_ok _ _ (hp.same hts nofun hpb)]
  exact (hf b).same (hvs.trans hts) hus hfb

theorem ite {q : Prop} [Decidable q] {p₁ p₂ : Parse α} (h₁ : Passes s m n g p₁)
    (h₂ : Passes s m n g p₂) : Passes s m n g (if q then p₁ else p₂) := by
  split
  · exact h₁
  · exact h₂

/-- A reader that does not tell the names apart. -/
theorem kind_bind {f : TokenKind → Parse β} (hf : ∀ k, Passes s m n g (f k))
    (h : f (.identifier m) = f (.identifier n)) : Passes s m n g (kind >>= f) := by
  refine ⟨.bind .kind fun k => (hf k).stepwise, fun {a ts us} hts hus hread => ?_⟩
  cases ts with
  | nil =>
    have hname := (hf (.identifier m)).same hts hus hread
    rwa [h] at hname
  | cons t ts => exact (hf t.kind).same hts hus hread

theorem at? {k : TokenKind} (hk : ∀ v, k ≠ .identifier v) : Passes s m n g (Parse.at? k) :=
  kind_bind (fun _ => .pure _) (by simp [(hk _).symm])

theorem accept (hs : s.Fits) {k : TokenKind} (hk : ∀ v, k ≠ .identifier v) :
    Passes s m n g (Parse.accept k) :=
  .bind hs (at? hk) fun _ => .ite (.bind hs advance fun _ => .pure _) (.pure _)

theorem name (hs : s.Fits) (expected : Expected) : Passes s m n g (Parse.name expected) := by
  refine ⟨.name expected, fun {a ts us} hts hus h => ?_⟩
  obtain ⟨v, e, hname, hrest⟩ := Parse.exists_of_bind_ok h
  obtain ⟨-, rfl⟩ := ok_inj hname
  cases v with
  | none => cases hrest
  | some v =>
    obtain ⟨rfl, hbehind⟩ := ok_inj hrest
    obtain ⟨hk, rfl⟩ := Slot.of_drop_ahead (k := 1) hbehind
    have hne : ts ≠ [] := List.ne_nil_of_length_pos hk
    rw [← Slot.drop_ahead hk, Parse.name, bind_ok _ _ (name?_same_ahead hs hts hne hname n)]
    rfl

theorem expectKeyword (hs : s.Fits) (k : Keyword) : Passes s m n g (Parse.expectKeyword k) :=
  .bind hs (accept hs nofun) fun _ => .ite (.pure _) (.refuse _)

end Passes

/-! ### Behind the name -/

namespace Carries

variable {rename : α → α} {rename' : β → β}

theorem pure {a b : α} (h : rename a = b) : Carries s m rename (Pure.pure a) (Pure.pure b) := by
  intro us x d hus hx
  obtain ⟨rfl, rfl⟩ := ok_inj hx
  exact congrArg (EStateM.Result.ok · _) h.symm

theorem bind (hp : Stepwise p) (hf : ∀ a, Carries s m rename' (f a) (f' a)) :
    Carries s m rename' (p >>= f) (p >>= f') := by
  intro us b d hus h
  obtain ⟨a, e, hpa, hfa⟩ := Parse.exists_of_bind_ok h
  obtain ⟨vs, hvs, rfl, -⟩ := hp.same_behind hus hpa
  rw [bind_ok _ _ hpa]
  exact hf a vs b d (hvs.trans hus) hfa

theorem ite {q : Prop} [Decidable q] {p₁ p₂ q₁ q₂ : Parse α} (h₁ : Carries s m rename p₁ q₁)
    (h₂ : Carries s m rename p₂ q₂) :
    Carries s m rename (if q then p₁ else p₂) (if q then q₁ else q₂) := by
  split
  · exact h₁
  · exact h₂

end Carries

/-! ### Over the name -/

namespace Renames

theorem not_mem_behind (h : Renames s m n g N p) {us : List Token} (hus : us <:+ lexemes s.back)
    {a : α} {d : Cursor} (hp : p (s.behind m us) = .ok a d) : m ∉ N.names a := by
  intro ha
  obtain ⟨ts, us', -, -, heq, -⟩ := h.crosses (Or.inr ⟨us, hus, rfl⟩) hp ha
  exact Slot.ahead_ne_behind hus heq.symm

/-- What is read behind the name does not have the name in it. -/
theorem carries (hp : Renames s m n g N p) {rename : β → β}
    (hf : ∀ a, m ∉ N.names a → Carries s m rename (f a) (f' a)) :
    Carries s m rename (p >>= f) (p >>= f') := by
  intro us b d hus h
  obtain ⟨a, e, hpa, hfa⟩ := Parse.exists_of_bind_ok h
  obtain ⟨vs, hvs, rfl, -⟩ := hp.stepwise.same_behind hus hpa
  rw [bind_ok _ _ hpa]
  exact hf a (hp.not_mem_behind hus hpa) vs b d (hvs.trans hus) hfa

theorem unguard (h : Renames s m n g N p) : Renames s m n false N p := by
  refine ⟨h.stepwise, fun hc hp ha => ?_⟩
  obtain ⟨ts, us, hts, hus, hc, hd, -, hn⟩ := h.crosses hc hp ha
  exact ⟨ts, us, hts, hus, hc, hd, nofun, hn⟩

/-- A reader that never yields the name. -/
theorem never (hp : Stepwise p)
    (h : ∀ c a d, s.At m c → p c = .ok a d → m ∉ N.names a) : Renames s m n g N p :=
  ⟨hp, fun hc hpa ha => absurd ha (h _ _ _ hc hpa)⟩

theorem pure {a : α} (h : m ∉ N.names a) : Renames s m n g N (Pure.pure a) :=
  never (.pure a) fun _ _ _ _ hb => (ok_inj hb).1 ▸ h

theorem ite {q : Prop} [Decidable q] {p₁ p₂ : Parse α} (h₁ : Renames s m n g N p₁)
    (h₂ : Renames s m n g N p₂) : Renames s m n g N (if q then p₁ else p₂) := by
  split
  · exact h₁
  · exact h₂

/-- The name is in what is read first, or in what is read then. -/
theorem bind (hs : s.Fits) (hp : Renames s m n g N p) (hpass : Passes s m n g' p)
    (hstep : ∀ a, Stepwise (f a))
    (hf : ∀ a, m ∉ N.names a → Renames s m n g' M (f a))
    (hcarry : ∀ a, m ∈ N.names a →
      Carries s m (M.rename (replaced m n)) (f a) (f (N.rename (replaced m n) a))) :
    Renames s m n (g && g') M (p >>= f) := by
  refine ⟨hp.stepwise.bind hstep, fun {c d b} hc h hb => ?_⟩
  obtain ⟨a, e, hpa, hfa⟩ := Parse.exists_of_bind_ok h
  by_cases ha : m ∈ N.names a
  · -- The first reader goes over the name, and the second one begins behind it.
    obtain ⟨ts, us, hts, hus, rfl, rfl, hstops, hn⟩ := hp.crosses hc hpa ha
    have hcarried := hcarry a ha us b d hus hfa
    obtain ⟨vs, hvs, rfl, hsame⟩ := (hstep _).same_behind hus hcarried
    refine ⟨ts, vs, hts, hvs.trans hus, rfl, rfl,
      fun hg => hstops (Bool.and_eq_true_iff.1 hg).1, ?_⟩
    rw [bind_ok _ _ hn]
    exact hsame n
  · -- The first reader stops in front of the name.
    have he := hc.of_reads (hp.stepwise.reads (hc.lexed hs) hpa)
    obtain ⟨us, vs, hus, hvs, rfl, rfl, hstops, hn⟩ := (hf a ha).crosses he hfa hb
    obtain ⟨ts, hts, hsuffix, rfl⟩ := hc.of_ahead hs hp.stepwise hpa
    refine ⟨ts, vs, hts, hvs, rfl, rfl,
      fun hg => (hstops (Bool.and_eq_true_iff.1 hg).2).of_suffix hsuffix, ?_⟩
    rw [bind_ok _ _ (hpass.same hts hstops hpa)]
    exact hn

/-- The name is in what is read then. -/
theorem after (hs : s.Fits) (hp : Passes s m n g p) (hf : ∀ a, Renames s m n g M (f a)) :
    Renames s m n g M (p >>= f) := by
  refine ⟨hp.stepwise.bind fun a => (hf a).stepwise, fun {c d b} hc h hb => ?_⟩
  obtain ⟨a, e, hpa, hfa⟩ := Parse.exists_of_bind_ok h
  have he := hc.of_reads (hp.stepwise.reads (hc.lexed hs) hpa)
  obtain ⟨us, vs, hus, hvs, rfl, rfl, hstops, hn⟩ := (hf a).crosses he hfa hb
  obtain ⟨ts, hts, hsuffix, rfl⟩ := hc.of_ahead hs hp.stepwise hpa
  refine ⟨ts, vs, hts, hvs, rfl, rfl, fun hg => (hstops hg).of_suffix hsuffix, ?_⟩
  rw [bind_ok _ _ (hp.same hts hstops hpa)]
  exact hn

/-- A reader that does not tell the names apart. -/
theorem kind_bind {f : TokenKind → Parse β} (hf : ∀ k, Renames s m n g M (f k))
    (h : f (.identifier m) = f (.identifier n)) : Renames s m n g M (kind >>= f) := by
  refine ⟨.bind .kind fun k => (hf k).stepwise, fun {c d b} hc hread hb => ?_⟩
  obtain ⟨ts, us, hts, hus, rfl, rfl, hstops, hn⟩ := (hf c.current.kind).crosses hc hread hb
  refine ⟨ts, us, hts, hus, rfl, rfl, hstops, ?_⟩
  cases ts with
  | nil =>
    have hname : f (.identifier m) (s.ahead n []) = _ := hn
    rwa [h] at hname
  | cons t ts => exact hn

theorem bind_pure (h : α → β) (hp : Renames s m n g N p)
    (hnames : ∀ a, M.names (h a) = N.names a)
    (hrename : ∀ a, M.rename (replaced m n) (h a) = h (N.rename (replaced m n) a)) :
    Renames s m n g M (p >>= fun a => Pure.pure (h a)) := by
  refine ⟨hp.stepwise.bind fun a => .pure (h a), fun {c d b} hc hread hb => ?_⟩
  obtain ⟨a, e, hpa, hpure⟩ := Parse.exists_of_bind_ok hread
  obtain ⟨rfl, rfl⟩ := ok_inj hpure
  obtain ⟨ts, us, hts, hus, hc, hd, hstops, hn⟩ := hp.crosses hc hpa (hnames a ▸ hb)
  refine ⟨ts, us, hts, hus, hc, hd, hstops, ?_⟩
  rw [bind_ok _ _ hn, hrename]
  rfl

theorem map (h : α → β) (hp : Renames s m n g N p) (hnames : ∀ a, M.names (h a) = N.names a)
    (hrename : ∀ a, M.rename (replaced m n) (h a) = h (N.rename (replaced m n) a)) :
    Renames s m n g M (h <$> p) := by
  rw [← bind_pure_comp]
  exact bind_pure h hp hnames hrename

/-! ### Tokens in front of what is read -/

/-- A token that is read first guards what is read then. -/
theorem accept_bind (hs : s.Fits) {k : TokenKind} (hk : ∀ v, k ≠ .identifier v)
    (hnot : k ≠ .keyword .not) {f : Bool → Parse β} (htrue : Renames s m n false M (f true))
    (hfalse : Renames s m n true M (f false)) : Renames s m n true M (accept k >>= f) := by
  have hunguarded : Renames s m n false M (accept k >>= f) :=
    after hs (.accept hs hk) fun present => by
      cases present with
      | false => exact hfalse.unguard
      | true => exact htrue
  refine ⟨hunguarded.stepwise, fun {c d b} hc hread hb => ?_⟩
  obtain ⟨ts, us, hts, hus, rfl, rfl, -, hn⟩ := hunguarded.crosses hc hread hb
  refine ⟨ts, us, hts, hus, rfl, rfl, fun _ => ?_, hn⟩
  by_cases hkind : (s.ahead m ts).current.kind = k
  · cases ts with
    | nil => exact absurd hkind.symm (hk m)
    | cons t ts =>
      refine ⟨List.cons_ne_nil t ts, fun heq => hnot ?_⟩
      exact hkind.symm.trans (List.cons.inj heq).1
  · have haccept : accept k (s.ahead m ts) = .ok false (s.ahead m ts) := by
      rw [accept_eq, if_neg hkind]
    rw [bind_ok _ _ haccept] at hread
    obtain ⟨ts', -, -, -, heq, -, hstops, -⟩ := hfalse.crosses hc hread hb
    exact Slot.ahead_inj heq ▸ hstops rfl

theorem acceptKeyword_bind (hs : s.Fits) {k : Keyword} (hk : k ≠ .not) {f : Bool → Parse β}
    (htrue : Renames s m n false M (f true)) (hfalse : Renames s m n true M (f false)) :
    Renames s m n true M (acceptKeyword k >>= f) :=
  accept_bind (k := .keyword k) hs (fun _ => nofun) (fun h => hk (TokenKind.keyword.inj h)) htrue
    hfalse

theorem acceptSymbol_bind (hs : s.Fits) (x : Symbol) {f : Bool → Parse β}
    (htrue : Renames s m n false M (f true)) (hfalse : Renames s m n true M (f false)) :
    Renames s m n true M (acceptSymbol x >>= f) :=
  accept_bind (k := .symbol x) hs (fun _ => nofun) nofun htrue hfalse

theorem expectSymbol_bind (hs : s.Fits) (x : Symbol) {f : Unit → Parse β}
    (h : Renames s m n false M (f ())) : Renames s m n true M (expectSymbol x >>= f) := by
  have hbind : (expectSymbol x >>= f) = acceptSymbol x >>= fun present =>
      if present then f () else Parse.refuse (.symbol x) >>= f := by
    unfold expectSymbol
    rw [bind_assoc]
    congr 1
    funext present
    cases present <;> rfl
  rw [hbind]
  refine acceptSymbol_bind hs x ?_ ?_
  · exact h
  · exact never (.bind (.refuse _) fun _ => h.stepwise) nofun

/-! ### Names and repetition -/

/-- The name is read at its place. -/
theorem eq_ahead_of_name (hs : s.Fits) (hm : s.Fresh m) {expected : Expected} {c d : Cursor}
    (hc : s.At m c) (h : Parse.name expected c = .ok m d) :
    c = s.ahead m [] ∧ d = s.behind m (lexemes s.back) := by
  obtain ⟨v, e, hname, hrest⟩ := Parse.exists_of_bind_ok h
  cases v with
  | none => cases hrest
  | some v =>
    obtain ⟨rfl, rfl⟩ := ok_inj hrest
    have hcursor := hm.eq_ahead_of_name? hs hc hname
    obtain ⟨-, rfl⟩ := ok_inj hname
    subst hcursor
    exact ⟨rfl, rfl⟩

theorem name (hs : s.Fits) (hm : s.Fresh m) (expected : Expected) :
    Renames s m n false .text (Parse.name expected) := by
  refine ⟨.name expected, fun {c d a} hc hread ha => ?_⟩
  obtain rfl : m = a := List.mem_singleton.1 ha
  obtain ⟨rfl, rfl⟩ := eq_ahead_of_name hs hm hc hread
  refine ⟨[], lexemes s.back, List.nil_suffix, List.suffix_rfl, rfl, rfl, nofun, ?_⟩
  rw [show Naming.text.rename (replaced m n) m = n from replaced_self m n]
  rfl

/-- A clause as it is written has no fresh name. -/
theorem sourceOf (hs : s.Fits) (hm : s.Fresh m) (hp : Stepwise p) :
    Renames s m n g .text (Parse.sourceOf p) := by
  refine never hp.sourceOf fun c a d hc hread ha => ?_
  obtain rfl : m = a := List.mem_singleton.1 ha
  obtain ⟨x, e, hwith, hpure⟩ := Parse.exists_of_bind_ok hread
  cases hpc : p c with
  | error e' d' =>
    rw [withSource_of_error hpc] at hwith
    cases hwith
  | ok b d' =>
    rw [withSource_of_ok hpc] at hwith
    obtain ⟨rfl, rfl⟩ := ok_inj hwith
    obtain ⟨htext, rfl⟩ := ok_inj hpure
    exact hm.ne_textTo hs hc (hc.of_reads (hp.reads (hc.lexed hs) hpc)) htext

/-- Repeated steps go over the name in one of them. -/
theorem many (hs : s.Fits) {step : Parse (Option α)} (h : Renames s m n true N.option step) :
    Renames s m n true N.list (Parse.many step) := by
  have hstep := h.stepwise
  refine ⟨hstep.many, fun {c d as} hc hread has => ?_⟩
  induction hk : c.ahead.length using Nat.strongRecOn generalizing c as with
  | ind k ih =>
    obtain ⟨-, rfl⟩ | ⟨a, hsome, hstuck, rfl⟩ | ⟨a, e, as', hsome, hlt, hrest, rfl⟩ :=
      many_cases hread
    · cases has
    · obtain ⟨ts, us, hts, hus, rfl, rfl, -⟩ := h.crosses hc hsome has
      have hle := hus.length_le
      rw [Slot.length_ahead, Slot.length_behind] at hstuck
      omega
    · have he := hc.of_reads (hstep.reads (hc.lexed hs) hsome)
      have hrename : N.list.rename (replaced m n) (a :: as') =
        N.rename (replaced m n) a :: N.list.rename (replaced m n) as' := rfl
      by_cases ha : m ∈ N.names a
      · -- The first step goes over the name, and the others begin behind it.
        obtain ⟨ts, us, hts, hus, rfl, rfl, hstops, hn⟩ :=
          h.crosses hc hsome (List.mem_flatMap.2 ⟨a, List.mem_cons_self, ha⟩)
        obtain ⟨vs, hvs, rfl, hsame⟩ := hstep.many.same_behind hus hrest
        have hothers : m ∉ N.list.names as' := by
          intro has'
          obtain ⟨ts', us', -, -, heq, -⟩ := ih _ (hk ▸ hlt) he hrest has' rfl
          exact Slot.ahead_ne_behind hus heq.symm
        have hless : (s.behind n us).ahead.length < (s.ahead n ts).ahead.length := by
          have hle := hus.length_le
          rw [Slot.length_ahead, Slot.length_behind]
          omega
        refine ⟨ts, vs, hts, hvs.trans hus, rfl, rfl, hstops, ?_⟩
        rw [many_of_some hn hless, hsame n, hrename, N.list.rename_of_not_mem hothers]
      · -- The first step stops in front of the name.
        have has' : m ∈ N.list.names as' := (List.mem_append.1 has).resolve_left ha
        obtain ⟨us, vs, hus, hvs, rfl, rfl, hstops, hn⟩ := ih _ (hk ▸ hlt) he hrest has' rfl
        obtain ⟨ts, hts, hsuffix, rfl⟩ := hc.of_ahead hs hstep hsome
        have hless : (s.ahead n us).ahead.length < (s.ahead n ts).ahead.length := by
          rw [Slot.length_ahead, Slot.length_ahead] at hlt ⊢
          exact hlt
        refine ⟨ts, vs, hts, hvs, rfl, rfl, fun hg => (hstops hg).of_suffix hsuffix, ?_⟩
        rw [many_of_some (hstep.same_ahead hs m n hts (hstops rfl) hsome) hless, hn, hrename,
          N.rename_of_not_mem ha]

theorem commaSeparated (hs : s.Fits) {item : Parse α} (h : Renames s m n false N item) :
    Renames s m n false N.list (Parse.commaSeparated item) := by
  have hothers : Renames s m n true N.list
      (Parse.many do if ← acceptSymbol .comma then some <$> item else return none) :=
    many hs <| acceptSymbol_bind hs .comma
      (map some h (fun a => List.append_nil (N.names a)) fun _ => rfl) (pure List.not_mem_nil)
  have hlist (first : α) := hothers.stepwise.bind fun others => Stepwise.pure (first :: others)
  refine bind hs h (.of_stepwise hs h.stepwise) hlist (fun first hfirst => ?_)
    (fun first hfirst => ?_)
  · refine bind hs hothers (.of_stepwise hs hothers.stepwise) (fun _ => .pure _)
      (fun others hothers' => pure ?_) (fun others hothers' => .pure ?_)
    · exact fun hmem => (List.mem_append.1 hmem).elim hfirst hothers'
    · exact congrArg (· :: _) (N.rename_of_not_mem hfirst n)
  · refine hothers.carries fun others hothers' => .pure ?_
    exact congrArg (N.rename (replaced m n) first :: ·) (N.list.rename_of_not_mem hothers' n)

theorem parenthesized (hs : s.Fits) {content : Parse α} (h : Renames s m n false N content) :
    Renames s m n true N (Parse.parenthesized content) := by
  refine expectSymbol_bind hs .leftParen ?_
  have hclose (a : α) : Stepwise (do expectSymbol .rightParen; return a) :=
    (Stepwise.expectSymbol _).bind fun _ => .pure a
  refine bind hs h (.of_stepwise hs h.stepwise) hclose (fun a ha => ?_) (fun a ha => ?_)
  · exact after hs (.of_stepwise hs (.expectSymbol _)) fun _ => pure ha
  · exact .bind (.expectSymbol _) fun _ => .pure rfl

end Renames

end SchemaModels.Ddl
