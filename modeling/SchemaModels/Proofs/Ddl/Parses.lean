import SchemaModels.Proofs.Ddl.Canonical
import SchemaModels.Proofs.Ddl.GroupAgreement
import SchemaModels.Proofs.Ddl.Spelling

/-!
# Readers by the kinds of tokens

What a reader gives is mostly a matter of the kinds of the tokens ahead. `Parses` says which kinds a
reader takes and what it gives for them; since many readers look at the token behind the last one
they take, it also says which kinds that token may have. The end of the text counts as such a token.
-/

namespace SchemaModels.Ddl

def Cursor.kinds (c : Cursor) : List TokenKind := c.ahead.map (·.kind)

/-- The reader takes the given kinds where one that is allowed follows. -/
def Parses (p : Parse α) (ks : List TokenKind) (a : α) (allowed : TokenKind → Prop) : Prop :=
  ∀ c rest, c.Spelt → c.kinds = ks ++ rest → allowed (rest.headD .eof) →
    p c = .ok a (c.drop ks.length)

/-- Any kind of token. -/
def Any (_ : TokenKind) : Prop := True

namespace Cursor

variable {c : Cursor} {k : TokenKind} {ks rest : List TokenKind}

theorem kind_current_eq (c : Cursor) : c.current.kind = c.kinds.headD .eof := by
  obtain ⟨source, _ | ⟨t, ts⟩⟩ := c <;> rfl

theorem kinds_drop (h : c.kinds = ks ++ rest) : (c.drop ks.length).kinds = rest := by
  rw [Cursor.drop_eq]
  unfold kinds at h ⊢
  rw [List.map_drop, h, List.drop_left]

theorem drop_drop (m n : Nat) (c : Cursor) : (c.drop m).drop n = c.drop (m + n) := by
  rw [Cursor.drop_eq, Cursor.drop_eq, Cursor.drop_eq, List.drop_drop]

theorem Spelt.drop (h : c.Spelt) (n : Nat) : (c.drop n).Spelt := by
  rw [Cursor.drop_eq]
  exact fun t ht => h t (List.mem_of_mem_drop ht)

end Cursor

theorem headD_append (ks rest : List TokenKind) :
    (ks ++ rest).headD .eof = (ks ++ [rest.headD .eof]).headD .eof := by
  cases ks with
  | nil => cases rest <;> rfl
  | cons k ks => rfl

/-! ### One reader after another -/

section Composition

open AgreesAt (bind_ok map_ok)

variable {p : Parse α} {f : α → Parse β} {a : α} {b : β} {k : TokenKind} {ks ls : List TokenKind}
  {allowed allowed' : TokenKind → Prop}

theorem Parses.append (hp : Parses p ks a allowed) (hf : Parses (f a) ls b allowed')
    (h : ∀ k, allowed' k → allowed ((ls ++ [k]).headD .eof)) :
    Parses (p >>= f) (ks ++ ls) b allowed' := by
  intro c rest hc hkinds hrest
  rw [List.append_assoc] at hkinds
  have hfirst := hp c (ls ++ rest) hc hkinds (headD_append ls rest ▸ h _ hrest)
  have hsecond := hf _ rest (hc.drop _) (Cursor.kinds_drop hkinds) hrest
  rw [bind_ok p f hfirst, hsecond, Cursor.drop_drop, List.length_append]

theorem Parses.cons (hp : Parses p [k] a Any) (hf : Parses (f a) ls b allowed) :
    Parses (p >>= f) (k :: ls) b allowed :=
  hp.append hf fun _ _ => trivial

/-- A reader that takes nothing only looks at what comes next. -/
theorem Parses.look (hp : Parses p [] a allowed) (hf : Parses (f a) ls b allowed')
    (h : ∀ k, allowed' k → allowed ((ls ++ [k]).headD .eof)) : Parses (p >>= f) ls b allowed' :=
  hp.append hf h

theorem Parses.pure (a : α) : Parses (Pure.pure a) [] a allowed := fun _ _ _ _ _ => rfl

theorem Parses.map (g : α → β) (hp : Parses p ks a allowed) :
    Parses (g <$> p) ks (g a) allowed :=
  fun c rest hc hkinds hrest => map_ok g (hp c rest hc hkinds hrest)

/-- What comes after may take nothing. -/
theorem Parses.last (hp : Parses p ks a allowed) (hf : Parses (f a) [] b allowed')
    (h : ∀ k, allowed' k → allowed k) : Parses (p >>= f) ks b allowed' := by
  have hall := hp.append hf h
  rwa [List.append_nil] at hall

theorem Parses.bind_pure (g : α → β) (hp : Parses p ks a allowed) :
    Parses (p >>= fun x => Pure.pure (g x)) ks (g a) allowed :=
  hp.last (.pure (g a)) fun _ => id

theorem Parses.mono (hp : Parses p ks a allowed) (h : ∀ k, allowed' k → allowed k) :
    Parses p ks a allowed' :=
  fun c rest hc hkinds hrest => hp c rest hc hkinds (h _ hrest)

end Composition

namespace Parse

open AgreesAt (bind_ok map_ok)

variable {k : TokenKind} {ks : List TokenKind} {allowed : TokenKind → Prop}

/-! ### One token -/

theorem parses_advance : Parses advance [k] () Any := fun _ _ _ _ _ => rfl

/-- A choice by the kind of the first token that is taken. -/
theorem parses_kind_bind {f : TokenKind → Parse α} {a : α}
    (hf : Parses (f k) (k :: ks) a allowed) : Parses (kind >>= f) (k :: ks) a allowed := by
  intro c rest hc hkinds hrest
  have hkind : kind c = .ok k c := by
    show EStateM.Result.ok c.current.kind c = _
    rw [Cursor.kind_current_eq, hkinds]
    rfl
  rw [bind_ok kind f hkind]
  exact hf c rest hc hkinds hrest

/-- A choice by the kind of the token that follows, where nothing is taken. -/
theorem parses_kind_look {f : TokenKind → Parse α} {a : α}
    (hf : ∀ k, allowed k → f k = pure a) : Parses (kind >>= f) [] a allowed := by
  intro c rest hc hkinds hrest
  have hcurrent : c.current.kind = rest.headD .eof := by
    rw [Cursor.kind_current_eq, hkinds]
    rfl
  rw [bind_ok kind f rfl, hf _ (hcurrent ▸ hrest)]
  rfl

theorem parses_test {p : Parse α} {f : TokenKind → α} {a : α}
    (hp : ∀ c, p c = .ok (f c.current.kind) c) (hf : ∀ k, allowed k → f k = a) :
    Parses p [] a allowed := by
  intro c rest hc hkinds hrest
  rw [hp, Cursor.kind_current_eq, hkinds]
  exact congrArg (EStateM.Result.ok · c) (hf _ hrest)

theorem parses_accept (k : TokenKind) : Parses (accept k) [k] true Any := by
  intro c rest _ hkinds _
  rw [accept_eq, Cursor.kind_current_eq, hkinds]
  exact if_pos rfl

theorem parses_accept_of_ne (k : TokenKind) : Parses (accept k) [] false (· ≠ k) := by
  intro c rest _ hkinds hrest
  rw [accept_eq, Cursor.kind_current_eq, hkinds]
  exact if_neg hrest

theorem parses_acceptWord_of_not (words : List Text) :
    Parses (acceptWord words) [] false fun k => isWord words k = false := by
  intro c rest _ hkinds hrest
  rw [acceptWord_eq, Cursor.kind_current_eq, hkinds]
  exact if_neg (by rw [List.nil_append, hrest]; exact nofun)

theorem parses_at (k : TokenKind) : Parses (at? k) [] true (· = k) :=
  parses_test (f := fun k' => decide (k' = k)) (fun _ => rfl) fun _ => decide_eq_true

theorem parses_at_of_ne (k : TokenKind) : Parses (at? k) [] false (· ≠ k) :=
  parses_test (f := fun k' => decide (k' = k)) (fun _ => rfl) fun _ => decide_eq_false

theorem parses_expectKeyword (k : Keyword) : Parses (expectKeyword k) [.keyword k] () Any :=
  (parses_accept (.keyword k)).cons (.pure ())

theorem parses_expectSymbol (s : Symbol) : Parses (expectSymbol s) [.symbol s] () Any :=
  (parses_accept (.symbol s)).cons (.pure ())

theorem parses_name (n : Text) (expected : Expected) :
    Parses (name expected) [.identifier n] n Any := by
  intro c rest _ hkinds _
  have hcurrent : c.current.kind = .identifier n := by
    rw [Cursor.kind_current_eq, hkinds]
    rfl
  have hname : name? c = .ok (some n) c := by
    unfold name?
    rw [hcurrent]
  exact bind_ok name? _ hname

theorem parses_string (s : Text) : Parses string [.string s] s Any :=
  parses_kind_bind (parses_advance.cons (.pure s))

/-! ### Repetition -/

theorem length_drop_lt {rest : List TokenKind} {c : Cursor} (h : c.kinds = k :: ks ++ rest) :
    (c.drop (k :: ks).length).ahead.length < c.ahead.length := by
  have hlength := congrArg List.length h
  simp only [Cursor.kinds, List.length_map, List.length_append, List.length_cons] at hlength
  rw [Cursor.ahead_drop, List.length_drop, List.length_cons]
  omega

theorem parses_many_of_none {step : Parse (Option α)} (h : Parses step [] none allowed) :
    Parses (many step) [] [] allowed :=
  fun c rest hc hkinds hrest => many_of_none (h c rest hc hkinds hrest)

/-- What follows an item is the next item, or what follows them all. -/
theorem parses_many {step : Parse (Option α)} {xs : List β} (value : β → α)
    (kinds : β → List TokenKind) (between : TokenKind → Prop)
    (hstep : ∀ x ∈ xs, Parses step (kinds x) (some (value x)) between)
    (hbegins : ∀ x ∈ xs, ∃ k ks, kinds x = k :: ks ∧ between k)
    (hend : Parses step [] none allowed) (hlast : ∀ k, allowed k → between k) :
    Parses (many step) (xs.flatMap kinds) (xs.map value) allowed := by
  induction xs with
  | nil => exact parses_many_of_none hend
  | cons x xs ih =>
      intro c rest hc hkinds hrest
      rw [List.flatMap_cons, List.append_assoc] at hkinds
      have hnext : between ((xs.flatMap kinds ++ rest).headD .eof) := by
        cases xs with
        | nil => exact hlast _ hrest
        | cons y ys =>
            obtain ⟨k, ks, hy, hk⟩ := hbegins y (List.mem_cons_of_mem x List.mem_cons_self)
            rw [List.flatMap_cons, hy]
            exact hk
      have hfirst := hstep x List.mem_cons_self c _ hc hkinds hnext
      have hlt : (c.drop (kinds x).length).ahead.length < c.ahead.length := by
        obtain ⟨k, ks, hx, -⟩ := hbegins x List.mem_cons_self
        rw [hx] at hkinds ⊢
        exact length_drop_lt hkinds
      have hrest' := ih (fun y hy => hstep y (List.mem_cons_of_mem x hy))
        (fun y hy => hbegins y (List.mem_cons_of_mem x hy)) _ rest (hc.drop _)
        (Cursor.kinds_drop hkinds) hrest
      rw [many_of_some hfirst hlt, hrest', Cursor.drop_drop, List.flatMap_cons, List.length_append]
      rfl

/-- What may stand behind an entry of a list in parentheses. -/
def EndsEntry (k : TokenKind) : Prop := k = .symbol .comma ∨ k = .symbol .rightParen

theorem separatedKinds_cons (ks : List TokenKind) (items : List (List TokenKind)) :
    separatedKinds (ks :: items) = ks ++ items.flatMap (.symbol .comma :: ·) := by
  induction items generalizing ks with
  | nil => simp [separatedKinds]
  | cons ls items ih =>
      rw [separatedKinds, ih, List.flatMap_cons, List.cons_append]
      exact nofun

theorem parses_commaSeparated {item : Parse α} {xs : List α} (kinds : α → List TokenKind)
    (hne : xs ≠ []) (hitem : ∀ x ∈ xs, Parses item (kinds x) x EndsEntry) :
    Parses (commaSeparated item) (separatedKinds (xs.map kinds)) xs (· = .symbol .rightParen) := by
  obtain ⟨x, xs, rfl⟩ := List.exists_cons_of_ne_nil hne
  rw [List.map_cons, separatedKinds_cons, List.flatMap_map]
  have hothers : Parses (many do if ← acceptSymbol .comma then some <$> item else return none)
      (xs.flatMap fun y => .symbol .comma :: kinds y) (xs.map id) (· = .symbol .rightParen) := by
    refine parses_many id _ EndsEntry (fun y hy => ?_) (fun y _ => ⟨_, _, rfl, Or.inl rfl⟩) ?_
      fun _ => Or.inr
    · exact (parses_accept (.symbol .comma)).cons
        (.map some (hitem y (List.mem_cons_of_mem x hy)))
    · exact (parses_accept_of_ne (.symbol .comma)).look (.pure none) fun
        | _, rfl => nofun
  rw [List.map_id] at hothers
  refine (hitem x List.mem_cons_self).append (hothers.bind_pure fun others => _) fun k hk => ?_
  cases xs with
  | nil => exact Or.inr hk
  | cons y ys => exact Or.inl rfl

theorem parses_parenthesized {content : Parse α} {a : α}
    (h : Parses content ks a (· = .symbol .rightParen)) :
    Parses (parenthesized content) (.symbol .leftParen :: (ks ++ [.symbol .rightParen])) a Any :=
  (parses_expectSymbol .leftParen).cons
    (h.append ((parses_expectSymbol .rightParen).bind_pure fun _ => a) fun _ _ => rfl)

theorem parses_group {item : Parse α} {xs : List α} (kinds : α → List TokenKind)
    (hne : xs ≠ []) (hitem : ∀ x ∈ xs, Parses item (kinds x) x EndsEntry) :
    Parses (parenthesized (commaSeparated item)) (groupKinds (xs.map kinds)) xs Any :=
  parses_parenthesized (parses_commaSeparated kinds hne hitem)

end Parse

end SchemaModels.Ddl
