import SchemaModels.Proofs.Ddl.StatementAgreement

/-!
# Runs of statements

Every statement reads at least one token. So a source text is read one statement after another, and
semicolons in front of a statement count for nothing.
-/

namespace SchemaModels.Ddl.Parse

open AgreesAt (bind_ok map_ok map_error)

variable {c : Cursor} {defaults : TableDefaults}

/-! ### Progress -/

theorem eq_of_skipStatement {d : Cursor} (h : skipStatement c = .ok () d) :
    d = c.drop (c.ahead.takeWhile fun t => isPlain t.kind).length ∧ ¬ d.current.kind.IsFault := by
  obtain ⟨_, e, hskip, hrest⟩ := exists_of_bind_ok (p := skipWhile isPlain) h
  cases hskip
  generalize c.drop (c.ahead.takeWhile fun t => isPlain t.kind).length = e at hrest ⊢
  obtain ⟨k, e', hk, hrest⟩ := exists_of_bind_ok hrest
  cases hk
  cases hk : e.current.kind with
  | fault x =>
      rw [hk] at hrest
      cases hrest
  | _ =>
      rw [hk] at hrest
      cases hrest
      exact ⟨rfl, by rw [hk]; exact nofun⟩

theorem isPlain_of_ne {k : TokenKind} (h : k ≠ .symbol .semicolon) (hfault : ¬ k.IsFault) :
    isPlain k = true := by
  unfold isPlain
  split
  · exact absurd rfl h
  · rename_i x
    exact absurd ⟨x, rfl⟩ hfault
  · rfl

theorem length_lt_of_skipStatement {d : Cursor} (heof : c.current.kind ≠ .eof)
    (hsemicolon : c.current.kind ≠ .symbol .semicolon) (h : skipStatement c = .ok () d) :
    d.ahead.length < c.ahead.length := by
  obtain ⟨hd, hfault⟩ := eq_of_skipStatement h
  have hcons := Cursor.ahead_eq_cons (Cursor.ahead_ne_nil heof)
  by_cases hplain : isPlain c.current.kind = true
  · rw [hd, Cursor.ahead_drop, hcons, List.takeWhile_cons_of_pos (by exact hplain)]
    simp only [List.length_cons, List.drop_succ_cons, List.length_drop]
    omega
  · rw [hcons, List.takeWhile_cons_of_neg (by exact hplain)] at hd
    cases hd
    exact absurd (isPlain_of_ne hsemicolon hfault) hplain

theorem inside_advance (hc : c.Inside) : c.advance.Inside := (Reads.drop 1 c).inside hc

/-- Every statement reads at least one token. -/
theorem length_lt_of_statement {s : Statement} {d : Cursor} (hc : c.Inside)
    (heof : c.current.kind ≠ .eof) (hsemicolon : c.current.kind ≠ .symbol .semicolon)
    (h : statement defaults c = .ok s d) : d.ahead.length < c.ahead.length := by
  obtain ⟨create, e, haccept, hrest⟩ := exists_of_bind_ok h
  rw [acceptKeyword, accept_eq] at haccept
  have hw : (Surroundings.behind []).SharesEnd := trivial
  split at haccept
  · cases haccept
    have hreads := (agreesAt_createStatement hw).reads (inside_advance hc) hrest
    exact Nat.lt_of_le_of_lt hreads.suffix.length_le (Cursor.length_advance_lt heof)
  · cases haccept
    obtain ⟨_, e, hskip, hrest⟩ := exists_of_bind_ok (p := skipStatement) hrest
    obtain ⟨_, e', haccept, hrest⟩ := exists_of_bind_ok hrest
    cases hrest
    have hreads : Reads true c e := (agreesAt_skipStatement (w := .behind [])).reads hc hskip
    have hreads' : Reads true e d :=
      (agreesAt_acceptSymbol (Or.inl hw)).reads (hreads.inside hc) haccept
    exact Nat.lt_of_le_of_lt hreads'.suffix.length_le
      (length_lt_of_skipStatement heof hsemicolon hskip)

theorem skipWhile_of_neg {p : TokenKind → Bool} (h : ¬ p c.current.kind = true) :
    skipWhile p c = .ok () c := by
  obtain ⟨source, _ | ⟨t, ts⟩⟩ := c
  · rfl
  · show EStateM.Result.ok () (Cursor.drop (List.takeWhile _ (t :: ts)).length _) = _
    rw [List.takeWhile_cons_of_neg (by exact h)]
    rfl

theorem skipWhile_of_pos {p : TokenKind → Bool} (hne : c.ahead ≠ [])
    (h : p c.current.kind = true) : skipWhile p c = skipWhile p c.advance := by
  obtain ⟨source, _ | ⟨t, ts⟩⟩ := c
  · exact absurd rfl hne
  · show EStateM.Result.ok () (Cursor.drop (List.takeWhile _ (t :: ts)).length _) = _
    rw [List.takeWhile_cons_of_pos (by exact h)]
    rfl

theorem semicolons_of_ne (h : c.current.kind ≠ .symbol .semicolon) : semicolons c = .ok () c :=
  skipWhile_of_neg fun hc => h (of_decide_eq_true hc)

theorem semicolons_of_eq (h : c.current.kind = .symbol .semicolon) :
    semicolons c = semicolons c.advance :=
  skipWhile_of_pos (Cursor.ahead_ne_nil (by rw [h]; exact nofun)) (decide_eq_true h)

theorem statement?_of_semicolons {d : Cursor} (h : semicolons c = .ok () d) :
    statement? defaults c =
      (do if ← at? .eof then return none else some <$> statement defaults) d :=
  bind_ok semicolons _ h

theorem statement?_of_eof (h : c.current.kind = .eof) : statement? defaults c = .ok none c := by
  have hsemicolons : semicolons c = .ok () c := semicolons_of_ne (by rw [h]; exact nofun)
  have heof : at? .eof c = .ok true c := by
    show EStateM.Result.ok (decide _) c = _
    rw [decide_eq_true h]
  exact (statement?_of_semicolons hsemicolons).trans (bind_ok (at? .eof) _ heof)

theorem statement?_of_semicolon (h : c.current.kind = .symbol .semicolon) :
    statement? defaults c = statement? defaults c.advance := by
  have hskip := semicolons_of_eq h
  rw [statement?_of_semicolons hskip, statement?_of_semicolons (c := c.advance) rfl]

theorem statement?_of_ne (heof : c.current.kind ≠ .eof)
    (hsemicolon : c.current.kind ≠ .symbol .semicolon) :
    statement? defaults c = (some <$> statement defaults) c := by
  have hat : at? .eof c = .ok false c := by
    show EStateM.Result.ok (decide _) c = _
    rw [decide_eq_false heof]
  exact (statement?_of_semicolons (semicolons_of_ne hsemicolon)).trans (bind_ok (at? .eof) _ hat)

theorem length_lt_of_statement? {s : Statement} {d : Cursor} (hc : c.Inside)
    (h : statement? defaults c = .ok (some s) d) : d.ahead.length < c.ahead.length := by
  induction hn : c.ahead.length generalizing c with
  | zero =>
      have hnil := List.length_eq_zero_iff.1 hn
      rw [statement?_of_eof (Cursor.kind_current_of_nil hnil)] at h
      cases h
  | succ n ih =>
      have hne : c.ahead ≠ [] := List.ne_nil_of_length_eq_add_one hn
      have heof : c.current.kind ≠ .eof := fun he => hne (hc.ahead_eq_nil he)
      by_cases hsemicolon : c.current.kind = .symbol .semicolon
      · rw [statement?_of_semicolon hsemicolon] at h
        have hlength : c.advance.ahead.length = n := by
          rw [Cursor.ahead_advance, List.length_tail, hn]
          rfl
        exact Nat.lt_succ_of_lt (ih (inside_advance hc) h hlength)
      · rw [statement?_of_ne heof hsemicolon] at h
        cases hs : statement defaults c with
        | error e d =>
            rw [map_error some hs] at h
            cases h
        | ok s d =>
            rw [map_ok some hs] at h
            cases h
            exact hn ▸ length_lt_of_statement hc heof hsemicolon hs

/-! ### Runs -/

theorem statements_of_eof (h : c.current.kind = .eof) : statements defaults c = .ok [] c :=
  many_of_none (statement?_of_eof h)

/-- Semicolons in front count for nothing. -/
theorem statements_of_semicolon (hc : c.Inside) (h : c.current.kind = .symbol .semicolon) :
    statements defaults c = statements defaults c.advance := by
  have hstep : statement? defaults c = statement? defaults c.advance := statement?_of_semicolon h
  unfold statements
  cases hs : statement? defaults c.advance with
  | error e d => rw [many_of_error hs, many_of_error (hstep.trans hs)]
  | ok x d =>
      cases x with
      | none => rw [many_of_none hs, many_of_none (hstep.trans hs)]
      | some s =>
          have hlt := length_lt_of_statement? (inside_advance hc) hs
          have hlt' := length_lt_of_statement? hc (hstep.trans hs)
          rw [many_of_some hs hlt, many_of_some (hstep.trans hs) hlt']

/-- Statements that are read in front of others. -/
def prepend (ss : List Statement) : EStateM.Result ParseError Cursor (List Statement) →
    EStateM.Result ParseError Cursor (List Statement)
  | .ok ss' d => .ok (ss ++ ss') d
  | .error e d => .error e d

theorem prepend_nil (r : EStateM.Result ParseError Cursor (List Statement)) :
    prepend [] r = r := by
  cases r with
  | ok ss d => rfl
  | error e d => rfl

theorem prepend_prepend (ss ss' : List Statement)
    (r : EStateM.Result ParseError Cursor (List Statement)) :
    prepend ss (prepend ss' r) = prepend (ss ++ ss') r := by
  cases r with
  | ok ss'' d => rw [prepend, prepend, prepend, List.append_assoc]
  | error e d => rfl

/-- The first statement and those behind it. -/
theorem statements_of_ok {s : Statement} {d : Cursor} (hc : c.Inside)
    (heof : c.current.kind ≠ .eof) (hsemicolon : c.current.kind ≠ .symbol .semicolon)
    (hs : statement defaults c = .ok s d) :
    statements defaults c = prepend [s] (statements defaults d) := by
  have hstep : statement? defaults c = .ok (some s) d :=
    (statement?_of_ne heof hsemicolon).trans (map_ok some hs)
  unfold statements
  rw [many_of_some hstep (length_lt_of_statement hc heof hsemicolon hs)]
  cases many (statement? defaults) d with
  | ok ss e => rfl
  | error e' e => rfl

theorem statements_of_error {e : ParseError} {d : Cursor} (heof : c.current.kind ≠ .eof)
    (hsemicolon : c.current.kind ≠ .symbol .semicolon) (hs : statement defaults c = .error e d) :
    statements defaults c = .error e d :=
  many_of_error ((statement?_of_ne heof hsemicolon).trans (map_error some hs))

/-- The tokens ahead are a run of statements with semicolons between them. -/
inductive Run (defaults : TableDefaults) : Cursor → List Statement → Prop
  | done {c : Cursor} (h : c.ahead = []) : Run defaults c []
  | semicolon {c : Cursor} {ss : List Statement} (h : c.current.kind = .symbol .semicolon)
    (rest : Run defaults c.advance ss) : Run defaults c ss
  | statement {c d : Cursor} {s : Statement} {ss : List Statement} (heof : c.current.kind ≠ .eof)
    (hsemicolon : c.current.kind ≠ .symbol .semicolon) (h : statement defaults c = .ok s d)
    (rest : Run defaults d ss) : Run defaults c (s :: ss)

/-- What is read without an error is such a run. -/
theorem run_of_statements {ss : List Statement} {d : Cursor} (hc : c.Inside)
    (h : statements defaults c = .ok ss d) : Run defaults c ss := by
  induction hn : c.ahead.length using Nat.strongRecOn generalizing c ss with
  | ind n ih =>
      by_cases heof : c.current.kind = .eof
      · rw [statements_of_eof heof] at h
        cases h
        exact .done (hc.ahead_eq_nil heof)
      by_cases hsemicolon : c.current.kind = .symbol .semicolon
      · have hlt := Cursor.length_advance_lt heof
        rw [statements_of_semicolon hc hsemicolon] at h
        exact .semicolon hsemicolon (ih _ (hn ▸ hlt) (inside_advance hc) h rfl)
      cases hs : statement defaults c with
      | error e e' =>
          rw [statements_of_error heof hsemicolon hs] at h
          cases h
      | ok s e =>
          have hlt := length_lt_of_statement hc heof hsemicolon hs
          have hreads := (agreesAt_statement (w := .behind []) trivial).reads hc hs
          rw [statements_of_ok hc heof hsemicolon hs] at h
          cases hss : statements defaults e with
          | error e' d' =>
              rw [hss] at h
              cases h
          | ok ss' d' =>
              rw [hss] at h
              cases h
              exact .statement heof hsemicolon hs (ih _ (hn ▸ hlt) (hreads.inside hc) hss rfl)

end SchemaModels.Ddl.Parse
