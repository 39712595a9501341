import SchemaModels.Proofs.Ddl.Progress

/-!
# The loops of the readers

The grammar's repetitions as loops without a bound: a turn goes on from another state or ends the
loop (`Loop.Runs`). A value that each turn keeps, and that the last one yields, is what the loop
ends with, if every turn that goes on passes a token (`Loop.Keeps.ends`). Each loop of the grammar
has such a value, the reader's own result (`IsLoop.keeps`), so that none of the readers depends on
a bound on its turns.
-/

namespace SchemaModels.Ddl

abbrev Parse.Result (α : Type) := EStateM.Result ParseError Cursor α

/-- One turn of a loop goes on from another state, or it ends the loop. -/
inductive Turn (σ ρ : Type)
  | again (s : σ)
  | done (r : ρ)

/-- A loop over states with a cursor, which makes up a reader. -/
structure Loop (σ α : Type) where
  reader : Parse α
  start : Cursor → σ
  cursor : σ → Cursor
  turn : σ → Turn σ (Parse.Result α)

namespace Loop

variable {σ α : Type} {l : Loop σ α}

/-- From a state, the loop comes to an end with a result, after some turns that go on. -/
inductive Runs (l : Loop σ α) : (turns : Nat) → σ → Parse.Result α → Prop
  | done {s : σ} {r : Parse.Result α} (h : l.turn s = .done r) : Runs l 0 s r
  | again {s s' : σ} {r : Parse.Result α} {n : Nat} (h : l.turn s = .again s')
    (rest : Runs l n s' r) : Runs l (n + 1) s r

/-- Every turn that goes on passes a token. -/
def Progresses (l : Loop σ α) : Prop :=
  ∀ s s', (l.cursor s).Lexed → l.turn s = .again s' → (l.cursor s).Passes (l.cursor s')

/-- From every cursor the loop ends with the result of the reader, after at most as many turns as
there are tokens ahead. -/
def Ends (l : Loop σ α) : Prop :=
  ∀ c, c.Lexed → ∃ n ≤ c.ahead.length, l.Runs n (l.start c) (l.reader c)

/-- A turn that goes on passes a token and keeps a value, which the last turn yields. -/
def KeepsAt (l : Loop σ α) (value : σ → Parse.Result α) (s : σ) : Prop :=
  match l.turn s with
  | .done r => value s = r
  | .again s' => (l.cursor s).Passes (l.cursor s') ∧ value s = value s'

namespace KeepsAt

variable {value : σ → Parse.Result α} {s t : σ}

theorem done {r : Parse.Result α} (h : l.turn s = .done r) (hvalue : value s = r) :
    l.KeepsAt value s := by
  rw [KeepsAt, h]
  exact hvalue

theorem again (h : l.turn s = .again t) (hpasses : (l.cursor s).Passes (l.cursor t))
    (hvalue : value s = value t) : l.KeepsAt value s := by
  rw [KeepsAt, h]
  exact ⟨hpasses, hvalue⟩

end KeepsAt

/-- A value that the turns keep is the result of the reader at the start. -/
structure Keeps (l : Loop σ α) (value : σ → Parse.Result α) : Prop where
  start : ∀ c, l.cursor (l.start c) = c ∧ value (l.start c) = l.reader c
  turn : ∀ s, (l.cursor s).Lexed → l.KeepsAt value s

namespace Keeps

variable {value : σ → Parse.Result α}

theorem progresses (h : l.Keeps value) : l.Progresses := by
  intro s s' hs hturn
  have hkeeps := h.turn s hs
  rw [KeepsAt, hturn] at hkeeps
  exact hkeeps.1

theorem runs (h : l.Keeps value) (s : σ) (hs : (l.cursor s).Lexed) :
    ∃ n ≤ (l.cursor s).ahead.length, l.Runs n s (value s) := by
  induction hn : (l.cursor s).ahead.length using Nat.strongRecOn generalizing s with
  | ind n ih =>
    have hkeeps := h.turn s hs
    rw [KeepsAt] at hkeeps
    cases hturn : l.turn s with
    | done r =>
      rw [hturn] at hkeeps
      exact ⟨0, Nat.zero_le n, .done (hkeeps ▸ hturn)⟩
    | again s' =>
      rw [hturn] at hkeeps
      obtain ⟨hpasses, hvalue⟩ := hkeeps
      have hlt := hn ▸ hpasses.length_lt
      obtain ⟨m, hm, hrest⟩ := ih _ hlt s' (hs.of_reads hpasses.reads) rfl
      rw [hvalue]
      exact ⟨m + 1, Nat.lt_of_le_of_lt hm hlt, .again hturn hrest⟩

theorem ends (h : l.Keeps value) : l.Ends := by
  intro c hc
  obtain ⟨hcursor, hvalue⟩ := h.start c
  have hruns := h.runs (l.start c) (by rwa [hcursor])
  rwa [hcursor, hvalue] at hruns

end Keeps

/-! ### Repetition -/

/-- A step, until it declines. -/
def repeated (step : Parse (Option α)) : Loop (Cursor × List α) (List α) where
  reader := Parse.many step
  start c := (c, [])
  cursor := Prod.fst
  turn
    | (c, read) =>
      match step c with
      | .error e d => .done (.error e d)
      | .ok none d => .done (.ok read.reverse d)
      | .ok (some a) d => .again (d, a :: read)

/-- Items, as long as a comma follows. -/
def separated (item : Parse α) : Loop (Cursor × List α) (List α) where
  reader := Parse.commaSeparated item
  start c := (c, [])
  cursor := Prod.fst
  turn
    | (c, read) =>
      match item c with
      | .error e d => .done (.error e d)
      | .ok a d =>
        if d.current.kind = .symbol .comma then .again (d.advance, a :: read)
        else .done (.ok (a :: read).reverse d)

/-- What is read behind what has been read already. -/
def behind (read : List α) : Parse.Result (List α) → Parse.Result (List α)
  | .ok as d => .ok (read.reverse ++ as) d
  | .error e d => .error e d

theorem behind_nil (r : Parse.Result (List α)) : behind [] r = r := by
  cases r <;> rfl

theorem behind_cons (a : α) (read : List α) (r : Parse.Result (List α)) :
    behind (a :: read) r = behind read (behind [a] r) := by
  cases r <;> simp [behind]

theorem keeps_repeated {step : Parse (Option α)}
    (hstep : ∀ c, PassesAt step (fun a => a.isSome = true) c) :
    (repeated step).Keeps fun s => behind s.2 (Parse.many step s.1) where
  start c := ⟨rfl, behind_nil _⟩
  turn := by
    rintro ⟨c, read⟩ hc
    cases h : step c with
    | error e d =>
      refine .done (r := .error e d) (by simp only [repeated, h]) ?_
      rw [Parse.many_of_error h]
      rfl
    | ok x d =>
      cases x with
      | none =>
        refine .done (r := .ok read.reverse d) (by simp only [repeated, h]) ?_
        rw [Parse.many_of_none h]
        exact congrArg (EStateM.Result.ok · d) (List.append_nil _)
      | some a =>
        have hpasses : c.Passes d := hstep c hc _ _ h rfl
        refine .again (t := (d, a :: read)) (by simp only [repeated, h]) hpasses ?_
        rw [behind_cons, Parse.many_of_some h hpasses.length_lt]
        cases Parse.many step d <;> rfl

/-- The step with which a repetition goes on behind an item. -/
def commaItem (item : Parse α) : Parse (Option α) := do
  if ← Parse.acceptSymbol .comma then some <$> item else return none

section Separated

variable {item : Parse α} {c d : Cursor} {a : α}

theorem commaSeparated_of_ok (h : item c = .ok a d) :
    Parse.commaSeparated item c = behind [a] (Parse.many (commaItem item) d) := by
  refine (AgreesAt.bind_ok item _ h).trans ?_
  show EStateM.bind (Parse.many (commaItem item)) _ d = _
  rw [EStateM.bind]
  cases Parse.many (commaItem item) d with
  | error e d' => rfl
  | ok as d' => rfl

theorem commaItem_of_comma (h : c.current.kind = .symbol .comma) :
    commaItem item c = (some <$> item) c.advance := by
  have haccept : Parse.acceptSymbol .comma c = .ok true c.advance := by
    rw [Parse.acceptSymbol, Parse.accept_eq, if_pos h]
  exact AgreesAt.bind_ok (Parse.acceptSymbol .comma) _ haccept

theorem commaItem_of_ne (h : c.current.kind ≠ .symbol .comma) :
    commaItem item c = .ok none c := by
  have haccept : Parse.acceptSymbol .comma c = .ok false c := by
    rw [Parse.acceptSymbol, Parse.accept_eq, if_neg h]
  exact AgreesAt.bind_ok (Parse.acceptSymbol .comma) _ haccept

/-- Behind a comma stand items again. -/
theorem commaSeparated_of_comma (hitem : Stepwise item) (hd : d.Lexed)
    (h : item c = .ok a d) (hcomma : d.current.kind = .symbol .comma) :
    Parse.commaSeparated item c = behind [a] (Parse.commaSeparated item d.advance) := by
  have hpasses : d.Passes d.advance := .advance (by rw [hcomma]; exact nofun)
  have hstep : commaItem item d = (some <$> item) d.advance := commaItem_of_comma hcomma
  rw [commaSeparated_of_ok h]
  cases hnext : item d.advance with
  | error e d' =>
    rw [AgreesAt.map_error some hnext] at hstep
    rw [Parse.many_of_error hstep]
    exact congrArg (behind [a]) (AgreesAt.bind_error item _ hnext).symm
  | ok b d' =>
    rw [AgreesAt.map_ok some hnext] at hstep
    have hreads := hitem.reads (hd.of_reads hpasses.reads) hnext
    rw [Parse.many_of_some hstep (hpasses.trans_reads hreads).length_lt,
      commaSeparated_of_ok hnext]
    cases Parse.many (commaItem item) d' with
    | error e d'' => rfl
    | ok as d'' => rfl

theorem keeps_separated (hitem : Stepwise item) :
    (separated item).Keeps fun s => behind s.2 (Parse.commaSeparated item s.1) where
  start c := ⟨rfl, behind_nil _⟩
  turn := by
    rintro ⟨c, read⟩ hc
    cases h : item c with
    | error e d =>
      refine .done (r := .error e d) (by simp only [separated, h]) ?_
      exact congrArg (behind read) (AgreesAt.bind_error item _ h)
    | ok a d =>
      have hreads := hitem.reads hc h
      by_cases hcomma : d.current.kind = .symbol .comma
      · have hpasses : d.Passes d.advance := .advance (by rw [hcomma]; exact nofun)
        refine .again (t := (d.advance, a :: read)) (by simp only [separated, h, if_pos hcomma])
          (hreads.trans_passes hpasses) ?_
        rw [behind_cons, commaSeparated_of_comma hitem (hc.of_reads hreads) h hcomma]
      · refine .done (r := .ok (a :: read).reverse d)
          (by simp only [separated, h, if_neg hcomma]) ?_
        rw [commaSeparated_of_ok h, Parse.many_of_none (commaItem_of_ne hcomma)]
        simp [behind]

end Separated

/-! ### Tokens that are not looked into -/

/-- Tokens of some kinds, up to the end of the text. -/
def tokensWhile (p : TokenKind → Bool) : Loop Cursor Unit where
  reader := Parse.skipWhile p
  start := id
  cursor := id
  turn c :=
    if c.current.kind ≠ .eof ∧ p c.current.kind = true then .again c.advance else .done (.ok () c)

theorem keeps_tokensWhile (p : TokenKind → Bool) : (tokensWhile p).Keeps (Parse.skipWhile p) where
  start c := ⟨rfl, rfl⟩
  turn := by
    intro c hc
    by_cases heof : c.current.kind = .eof
    · refine .done (if_neg fun h => h.1 heof) ?_
      show EStateM.Result.ok () (Cursor.drop (c.ahead.takeWhile _).length c) = _
      have hnil : c.ahead = [] := hc.inside.ahead_eq_nil heof
      rw [hnil]
      rfl
    by_cases h : p c.current.kind = true
    · exact .again (if_pos ⟨heof, h⟩) (.advance heof)
        (Parse.skipWhile_of_pos (Cursor.ahead_ne_nil heof) h)
    · exact .done (if_neg fun hp => h hp.2) (Parse.skipWhile_of_neg h)

/-- The tokens of a group, where a number of parentheses is open. -/
def group : Loop (Cursor × Nat) Unit where
  reader := Parse.skipGroup
  start c := (c, 1)
  cursor := Prod.fst
  turn
    | (c, 0) => .done (.ok () c)
    | (c, depth + 1) =>
      if c.current.kind = .symbol .leftParen then .again (c.advance, depth + 2)
      else if c.current.kind = .symbol .rightParen then .again (c.advance, depth)
      else if c.current.kind = .eof then .done (Parse.refuse .groupEnd c)
      else .again (c.advance, depth + 1)

/-- What comes of a group with its end so far away. -/
def behindGroup (length : Option Nat) (c : Cursor) : Parse.Result Unit :=
  match length with
  | some n => .ok () (c.drop n)
  | none => Parse.refuse .groupEnd (c.drop c.ahead.length)

/-- What comes of a group of which a number of parentheses is open. -/
def groupRest : Cursor × Nat → Parse.Result Unit
  | (c, 0) => .ok () c
  | (c, depth + 1) => behindGroup (groupLength depth c.ahead) c

theorem behindGroup_map (length : Option Nat) (source : Text) (t : Token) (ts : List Token) :
    behindGroup (length.map (· + 1)) ⟨source, t :: ts⟩ = behindGroup length ⟨source, ts⟩ := by
  cases length <;> rfl

theorem keepsAt_group {source : Text} {t : Token} {ts : List Token} {depth : Nat}
    (heof : t.kind ≠ .eof) : group.KeepsAt groupRest (⟨source, t :: ts⟩, depth + 1) := by
  have hlength := Parse.groupLength_cons depth t ts
  have hpasses : Cursor.Passes ⟨source, t :: ts⟩ ⟨source, ts⟩ := .advance heof
  by_cases hopen : t.kind = .symbol .leftParen
  · refine .again (t := (⟨source, ts⟩, depth + 2)) (if_pos hopen) hpasses ?_
    rw [if_pos hopen] at hlength
    rw [groupRest, hlength, behindGroup_map]
    rfl
  rw [if_neg hopen] at hlength
  by_cases hclose : t.kind = .symbol .rightParen
  · refine .again (t := (⟨source, ts⟩, depth)) ((if_neg hopen).trans (if_pos hclose)) hpasses ?_
    rw [if_pos hclose] at hlength
    cases depth with
    | zero =>
      show behindGroup (groupLength 0 (t :: ts)) _ = _
      rw [hlength]
      rfl
    | succ depth =>
      show behindGroup (groupLength (depth + 1) (t :: ts)) _ = _
      rw [hlength, if_neg (Nat.succ_ne_zero depth), behindGroup_map]
      rfl
  · refine .again (t := (⟨source, ts⟩, depth + 1))
      ((if_neg hopen).trans ((if_neg hclose).trans (if_neg heof))) hpasses ?_
    rw [if_neg hclose] at hlength
    rw [groupRest, hlength, behindGroup_map]
    rfl

theorem keeps_group : group.Keeps groupRest where
  start c := by
    refine ⟨rfl, ?_⟩
    show behindGroup (groupLength 0 c.ahead) c = Parse.skipGroup c
    cases h : groupLength 0 c.ahead with
    | some n => exact (Parse.skipGroup_of_some h).symm
    | none => exact (Parse.skipGroup_of_none h).symm
  turn := by
    rintro ⟨⟨source, ts⟩, depth⟩ hc
    match depth, ts with
    | 0, ts => exact .done rfl rfl
    | depth + 1, [] => exact .done rfl rfl
    | depth + 1, t :: ts =>
      exact keepsAt_group fun hk => nomatch hc.inside.ahead_eq_nil hk

/-- The rest of a statement, in which a number of parentheses is open. -/
def balanced : Loop (Cursor × Nat) Unit where
  reader := Parse.skipBalanced
  start c := (c, 0)
  cursor := Prod.fst
  turn
    | (c, depth) =>
      if c.current.kind = .symbol .leftParen then .again (c.advance, depth + 1)
      else if c.current.kind = .symbol .rightParen then
        if depth = 0 then .done (Parse.refuse .semicolon c) else .again (c.advance, depth - 1)
      else if c.current.kind = .symbol .semicolon ∨ c.current.kind = .eof then
        if depth = 0 then .done (.ok () c) else .done (Parse.refuse .partitionEnd c)
      else if Parse.isPlain c.current.kind then .again (c.advance, depth)
      else .done (Parse.refuse .partitionDefinition c)

/-- What comes of the rest of a statement with its end so far away. -/
def behindBalanced (length : Nat × Option Expected) (c : Cursor) : Parse.Result Unit :=
  match length with
  | (n, none) => .ok () (c.drop n)
  | (n, some expected) => Parse.refuse expected (c.drop n)

theorem behindBalanced_map (length : Nat × Option Expected) (source : Text) (t : Token)
    (ts : List Token) :
    behindBalanced (length.map (· + 1) id) ⟨source, t :: ts⟩ =
      behindBalanced length ⟨source, ts⟩ := by
  obtain ⟨n, _ | expected⟩ := length <;> rfl

/-- What comes of a rest in which a number of parentheses is open. -/
def balancedRest (s : Cursor × Nat) : Parse.Result Unit :=
  behindBalanced (balancedLength s.2 s.1.ahead) s.1

theorem balancedLength_of_plain {t : Token} (hopen : t.kind ≠ .symbol .leftParen)
    (hclose : t.kind ≠ .symbol .rightParen) (hplain : Parse.isPlain t.kind = true) (depth : Nat)
    (ts : List Token) :
    balancedLength depth (t :: ts) = (balancedLength depth ts).map (· + 1) id := by
  rw [Parse.balancedLength_cons, if_neg hopen, if_neg hclose,
    if_neg (by rintro h; rw [h] at hplain; cases hplain)]
  refine if_neg fun hfault => ?_
  cases hk : t.kind with
  | fault x =>
    rw [hk] at hplain
    cases hplain
  | _ => simp [hk] at hfault

theorem balancedLength_of_fault {t : Token} {x : LexicalFault} (h : t.kind = .fault x)
    (depth : Nat) (ts : List Token) :
    balancedLength depth (t :: ts) = (0, some .partitionDefinition) := by
  simp [Parse.balancedLength_cons, h]

theorem keepsAt_balanced {source : Text} {t : Token} {ts : List Token} {depth : Nat}
    (heof : t.kind ≠ .eof) : balanced.KeepsAt balancedRest (⟨source, t :: ts⟩, depth) := by
  have hpasses : Cursor.Passes ⟨source, t :: ts⟩ ⟨source, ts⟩ := .advance heof
  have hrest {length : Nat × Option Expected} (h : balancedLength depth (t :: ts) = length) :
      balancedRest (⟨source, t :: ts⟩, depth) = behindBalanced length ⟨source, t :: ts⟩ :=
    congrArg (behindBalanced · _) h
  have hcons := Parse.balancedLength_cons depth t ts
  by_cases hopen : t.kind = .symbol .leftParen
  · rw [if_pos hopen] at hcons
    exact .again (t := (⟨source, ts⟩, depth + 1)) (if_pos hopen) hpasses
      ((hrest hcons).trans (behindBalanced_map _ _ _ _))
  rw [if_neg hopen] at hcons
  by_cases hclose : t.kind = .symbol .rightParen
  · rw [if_pos hclose] at hcons
    by_cases hdepth : depth = 0
    · rw [if_pos hdepth] at hcons
      exact .done ((if_neg hopen).trans ((if_pos hclose).trans (if_pos hdepth))) (hrest hcons)
    · rw [if_neg hdepth] at hcons
      exact .again (t := (⟨source, ts⟩, depth - 1))
        ((if_neg hopen).trans ((if_pos hclose).trans (if_neg hdepth))) hpasses
        ((hrest hcons).trans (behindBalanced_map _ _ _ _))
  rw [if_neg hclose] at hcons
  by_cases hsemicolon : t.kind = .symbol .semicolon
  · rw [if_pos hsemicolon] at hcons
    have hend : t.kind = .symbol .semicolon ∨ t.kind = .eof := .inl hsemicolon
    by_cases hdepth : depth = 0
    · rw [if_pos hdepth] at hcons
      exact .done ((if_neg hopen).trans
        ((if_neg hclose).trans ((if_pos hend).trans (if_pos hdepth)))) (hrest hcons)
    · rw [if_neg hdepth] at hcons
      exact .done ((if_neg hopen).trans
        ((if_neg hclose).trans ((if_pos hend).trans (if_neg hdepth)))) (hrest hcons)
  have hend : ¬ (t.kind = .symbol .semicolon ∨ t.kind = .eof) := not_or.2 ⟨hsemicolon, heof⟩
  by_cases hfault : t.kind.IsFault
  · obtain ⟨x, hx⟩ := hfault
    have hplain : ¬ Parse.isPlain t.kind = true := by
      rw [hx]
      exact nofun
    exact .done ((if_neg hopen).trans ((if_neg hclose).trans ((if_neg hend).trans
      (if_neg hplain)))) (hrest (balancedLength_of_fault hx depth ts))
  · have hplain := Parse.isPlain_of_ne hsemicolon hfault
    exact .again (t := (⟨source, ts⟩, depth)) ((if_neg hopen).trans ((if_neg hclose).trans
      ((if_neg hend).trans (if_pos hplain)))) hpasses
      ((hrest (balancedLength_of_plain hopen hclose hplain depth ts)).trans
        (behindBalanced_map _ _ _ _))

theorem keeps_balanced : balanced.Keeps balancedRest where
  start c := by
    refine ⟨rfl, ?_⟩
    show behindBalanced (balancedLength 0 c.ahead) c = Parse.skipBalanced c
    rcases h : balancedLength 0 c.ahead with ⟨n, _ | expected⟩
    · exact (Parse.skipBalanced_of_none h).symm
    · exact (Parse.skipBalanced_of_some h).symm
  turn := by
    rintro ⟨⟨source, ts⟩, depth⟩ hc
    match depth, ts with
    | 0, [] => exact .done rfl rfl
    | depth + 1, [] => exact .done rfl rfl
    | depth, t :: ts => exact keepsAt_balanced fun hk => nomatch hc.inside.ahead_eq_nil hk

end Loop

/-! ### The loops of the grammar -/

/-- Every loop of the grammar. -/
inductive IsLoop (defaults : TableDefaults) : {σ α : Type} → Loop σ α → Prop
  | statements : IsLoop defaults (.repeated (Parse.statement? defaults))
  | semicolons : IsLoop defaults (.tokensWhile (· = .symbol .semicolon))
  | entries : IsLoop defaults (.separated Parse.tableEntry)
  | typeModifiers : IsLoop defaults (.repeated Parse.typeModifier)
  | columnOptions : IsLoop defaults (.repeated Parse.columnOption)
  | referenceClauses : IsLoop defaults (.repeated Parse.referenceClause)
  | keyParts : IsLoop defaults (.separated Parse.keyPart)
  | indexAttributes : IsLoop defaults (.repeated Parse.indexAttribute)
  | arguments : IsLoop defaults (.separated Parse.expr)
  | tableOptions : IsLoop defaults (.repeated Parse.tableOption)
  | members : IsLoop defaults (.separated Parse.string)
  | group : IsLoop defaults .group
  | otherStatement : IsLoop defaults (.tokensWhile Parse.isPlain)
  | partition : IsLoop defaults .balanced

theorem IsLoop.keeps {defaults : TableDefaults} {σ α : Type} {l : Loop σ α}
    (h : IsLoop defaults l) : ∃ value, l.Keeps value := by
  cases h with
  | statements => exact ⟨_, Loop.keeps_repeated fun _ => Parse.passesAt_statement?⟩
  | semicolons => exact ⟨_, Loop.keeps_tokensWhile _⟩
  | entries => exact ⟨_, Loop.keeps_separated .tableEntry⟩
  | typeModifiers => exact ⟨_, Loop.keeps_repeated fun _ => Parse.passesAt_typeModifier⟩
  | columnOptions => exact ⟨_, Loop.keeps_repeated fun _ => Parse.passesAt_columnOption⟩
  | referenceClauses => exact ⟨_, Loop.keeps_repeated fun _ => Parse.passesAt_referenceClause⟩
  | keyParts => exact ⟨_, Loop.keeps_separated .keyPart⟩
  | indexAttributes => exact ⟨_, Loop.keeps_repeated fun _ => Parse.passesAt_indexAttribute⟩
  | arguments => exact ⟨_, Loop.keeps_separated .expr⟩
  | tableOptions => exact ⟨_, Loop.keeps_repeated fun _ => Parse.passesAt_tableOption⟩
  | members => exact ⟨_, Loop.keeps_separated .string⟩
  | group => exact ⟨_, Loop.keeps_group⟩
  | otherStatement => exact ⟨_, Loop.keeps_tokensWhile _⟩
  | partition => exact ⟨_, Loop.keeps_balanced⟩

end SchemaModels.Ddl
