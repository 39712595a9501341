import SchemaModels.Proofs.Ddl.ErrorTokens
import SchemaModels.Proofs.Ddl.StatementAgreement

/-!
# What readers yield

A property of what a reader yields (`Yields`) is shown from the properties of what its parts yield.
Readers start from the tokens of a source text and leave some of them (`Stepwise.reads`), and an
integer among these is below the limit of the lexer (`integer_lt_of_mem`).
-/

namespace SchemaModels.Ddl

/-! ### Integers of the lexer -/

namespace Lexer

theorem kind_number_lt {o n : Nat} {t : Text} (h : (number o t).1 = .integer n) : n < 2 ^ 63 := by
  unfold number at h
  dsimp only at h
  split at h
  · unfold integer at h
    dsimp only at h
    split at h
    · cases h
      assumption
    · cases h
  · split at h <;> cases h

theorem kind_token_lt {o n : Nat} {c : Char} {r : Text} (h : (token o c r).1 = .integer n) :
    n < 2 ^ 63 := by
  have htoken := isToken_token o c r
  generalize token o c r = x at h htoken
  cases htoken with
  | symbol hs => cases h
  | @quoted kind f isString hkind hc =>
    generalize quotedText c isString (o + 1) r = y at h
    obtain ⟨_ | value, p⟩ := y
    · cases h
    · obtain rfl | rfl := hkind <;> cases h
  | blob hc hr =>
    generalize blobBytes (o + 2) (r.drop 1) = y at h
    obtain ⟨_ | bytes, p⟩ := y <;> cases h
  | number hc => exact kind_number_lt h
  | word hc =>
    unfold word at h
    dsimp only at h
    split at h <;> cases h
  | other => cases h

theorem kind_next_lt {p : Place} {n : Nat} (h : (next p).1.kind = .integer n) : n < 2 ^ 63 := by
  unfold next at h
  split at h
  · cases h
  · cases h
  · exact kind_token_lt h

end Lexer

theorem integer_lt_of_mem {p : Place} {t : Token} (ht : t ∈ lexemesFrom p) {n : Nat}
    (hn : t.kind = .integer n) : n < 2 ^ 63 := by
  fun_induction lexemesFrom p with
  | case1 p step heof => cases ht
  | case2 p step heof ih =>
    obtain rfl | ht := List.mem_cons.1 ht
    · exact Lexer.kind_next_lt hn
    · exact ih ht

/-! ### Tokens of the source text -/

/-- The tokens ahead are the last ones of the source text. -/
def Cursor.Lexed (c : Cursor) : Prop := c.ahead <:+ lexemes c.source

namespace Cursor.Lexed

variable {c d : Cursor}

theorem ofSource (source : Text) : (Cursor.ofSource source).Lexed := List.suffix_rfl

theorem inside (h : c.Lexed) : c.Inside := fun t ht =>
  Cursor.inside_ofSource c.source t (List.IsSuffix.mem ht h)

theorem of_reads {blind : Bool} (h : c.Lexed) (hreads : Reads blind c d) : d.Lexed := by
  unfold Lexed
  rw [hreads.source_eq]
  exact hreads.suffix.trans h

theorem integer_lt (h : c.Lexed) {n : Nat} (hn : c.current.kind = .integer n) : n < 2 ^ 63 := by
  have hne : c.ahead ≠ [] := Cursor.ahead_ne_nil (by rw [hn]; exact nofun)
  have hmem : c.current ∈ lexemes c.source :=
    h.mem (Cursor.ahead_eq_cons hne ▸ List.mem_cons_self)
  exact integer_lt_of_mem hmem hn

end Cursor.Lexed

theorem Stepwise.reads {p : Parse α} (hp : Stepwise p) {c d : Cursor} {a : α} (hc : c.Lexed)
    (h : p c = .ok a d) : Reads true c d :=
  (hp.blames c).reads hc.inside h

/-! ### Properties of results -/

/-- What the reader yields from tokens of the source text has a property. -/
def Yields (p : Parse α) (P : α → Prop) : Prop :=
  ∀ c a d, c.Lexed → p c = .ok a d → P a ∧ d.Lexed

namespace Yields

variable {p : Parse α} {f : α → Parse β} {P P' : α → Prop} {Q : β → Prop}

theorem of_stepwise (hp : Stepwise p) : Yields p fun _ => True :=
  fun _ _ _ hc h => ⟨trivial, hc.of_reads (hp.reads hc h)⟩

theorem mono (hp : Yields p P) (h : ∀ a, P a → P' a) : Yields p P' :=
  fun c a d hc hp' => ⟨h a (hp c a d hc hp').1, (hp c a d hc hp').2⟩

theorem pure {a : α} (h : P a) : Yields (Pure.pure a) P := by
  intro c b d hc hb
  cases hb
  exact ⟨h, hc⟩

theorem refuse (expected : Expected) : Yields (Parse.refuse expected) P := nofun

theorem fail (cause : ParseError.Cause) : Yields (Parse.fail cause) P := nofun

theorem bind (hp : Yields p P) (hf : ∀ a, P a → Yields (f a) Q) : Yields (p >>= f) Q := by
  intro c b e hc h
  obtain ⟨a, d, hpa, hfa⟩ := Parse.exists_of_bind_ok h
  obtain ⟨ha, hd⟩ := hp c a d hc hpa
  exact hf a ha d b e hd hfa

/-- What is read first does not matter for the property. -/
theorem after (hp : Stepwise p) (hf : ∀ a, Yields (f a) Q) : Yields (p >>= f) Q :=
  (of_stepwise hp).bind fun a _ => hf a

theorem map (g : α → β) (hp : Yields p fun a => Q (g a)) : Yields (g <$> p) Q := by
  rw [← bind_pure_comp]
  exact hp.bind fun a ha => .pure ha

theorem ite {q : Prop} [Decidable q] {p₁ p₂ : Parse α} (h₁ : Yields p₁ P) (h₂ : Yields p₂ P) :
    Yields (if q then p₁ else p₂) P := by
  split
  · exact h₁
  · exact h₂

theorem withSource (hp : Yields p P) : Yields (Parse.withSource p) fun x => P x.1 := by
  intro c x d hc h
  cases hpc : p c with
  | error e d' =>
    rw [Parse.withSource_of_error hpc] at h
    cases h
  | ok a d' =>
    rw [Parse.withSource_of_ok hpc] at h
    cases h
    exact hp c a _ hc hpc

theorem many {step : Parse (Option α)} (h : Yields step fun x => ∀ a ∈ x, P a) :
    Yields (Parse.many step) fun as => ∀ a ∈ as, P a := by
  intro c
  induction hn : c.ahead.length using Nat.strongRecOn generalizing c with
  | ind n ih =>
    intro as d hc hm
    obtain ⟨hs, rfl⟩ | ⟨a, hs, -, rfl⟩ | ⟨a, d', as', hs, hlt, hrest, rfl⟩ :=
      Parse.many_cases hm
    · exact ⟨nofun, (h c none d hc hs).2⟩
    · obtain ⟨ha, hd⟩ := h c (some a) d hc hs
      exact ⟨List.forall_mem_singleton.2 (ha a rfl), hd⟩
    · obtain ⟨ha, hd'⟩ := h c (some a) d' hc hs
      obtain ⟨has, hd⟩ := ih d'.ahead.length (hn ▸ hlt) d' rfl as' d hd' hrest
      exact ⟨List.forall_mem_cons.2 ⟨ha a rfl, has⟩, hd⟩

theorem commaSeparated {item : Parse α} (h : Yields item P) :
    Yields (Parse.commaSeparated item) fun as => as ≠ [] ∧ ∀ a ∈ as, P a := by
  refine h.bind fun first hfirst => ?_
  have hstep : Yields (do if ← Parse.acceptSymbol .comma then some <$> item else return none)
      fun x => ∀ a ∈ x, P a := by
    refine .after (.accept _) fun present => .ite (.map some ?_) (.pure nofun)
    refine h.mono fun a ha b hb => ?_
    cases hb
    exact ha
  exact hstep.many.bind fun others hothers =>
    .pure ⟨List.cons_ne_nil _ _, List.forall_mem_cons.2 ⟨hfirst, hothers⟩⟩

theorem parenthesized {content : Parse α} (h : Yields content P) :
    Yields (Parse.parenthesized content) P :=
  .after (.expectSymbol _) fun _ => h.bind fun _ ha => .after (.expectSymbol _) fun _ => .pure ha

theorem kind : Yields Parse.kind fun k => ∀ n, k = .integer n → n < 2 ^ 63 := by
  intro c k d hc h
  cases h
  exact ⟨fun n hn => hc.integer_lt hn, hc⟩

end Yields

end SchemaModels.Ddl
