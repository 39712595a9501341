import SchemaModels.Proofs.Ddl.Postconditions
import SchemaModels.Proofs.Ddl.StatementRuns

/-!
# Readers that move on

A reader passes tokens if it has read one at least where it succeeds (`PassesAt`). One token that is
read with certainty is enough, in front of other readers or behind them. So every step that the
grammar repeats passes tokens, and so does a default value (`passesAt_expr`); and a statement does
where the text has not ended yet (`passesAt_statement`).
-/

namespace SchemaModels.Ddl

/-- A cursor stands behind another one, with at least one token between them. -/
structure Cursor.Passes (c d : Cursor) : Prop where
  source_eq : d.source = c.source
  suffix : d.ahead <:+ c.ahead
  length_lt : d.ahead.length < c.ahead.length

namespace Cursor.Passes

variable {blind : Bool} {c d e : Cursor}

theorem of_reads (h : Reads blind c d) (hlt : d.ahead.length < c.ahead.length) : c.Passes d :=
  ⟨h.source_eq, h.suffix, hlt⟩

theorem advance (h : c.current.kind ≠ .eof) : c.Passes c.advance :=
  ⟨rfl, List.tail_suffix c.ahead, length_advance_lt h⟩

theorem reads (h : c.Passes d) : Reads true c d := ⟨h.source_eq, h.suffix, nofun⟩

theorem trans_reads (h : c.Passes d) (h' : Reads blind d e) : c.Passes e :=
  ⟨h'.source_eq.trans h.source_eq, h'.suffix.trans h.suffix,
    Nat.lt_of_le_of_lt h'.suffix.length_le h.length_lt⟩

end Cursor.Passes

theorem Reads.trans_passes {blind : Bool} {c d e : Cursor} (h : Reads blind c d)
    (h' : d.Passes e) : c.Passes e :=
  ⟨h'.source_eq.trans h.source_eq, h'.suffix.trans h.suffix,
    Nat.lt_of_lt_of_le h'.length_lt h.suffix.length_le⟩

/-- Where the reader yields something with a property, it has read a token. -/
def PassesAt (p : Parse α) (P : α → Prop) (c : Cursor) : Prop :=
  c.Lexed → ∀ a d, p c = .ok a d → P a → c.Passes d

namespace PassesAt

variable {c : Cursor} {p : Parse α} {f : α → Parse β} {P : α → Prop} {Q : β → Prop}

theorem pure {a : α} (h : ¬ P a) : PassesAt (Pure.pure a) P c := by
  intro _ b d hb hP
  cases hb
  exact absurd hP h

theorem refuse (expected : Expected) : PassesAt (Parse.refuse expected) P c := nofun

/-- What is read first passes a token. -/
theorem bind (hp : PassesAt p (fun _ => True) c) (hf : ∀ a, Stepwise (f a)) :
    PassesAt (p >>= f) Q c := by
  intro hc b e h _
  obtain ⟨a, d, hpa, hfa⟩ := Parse.exists_of_bind_ok h
  have hpasses := hp hc a d hpa trivial
  exact hpasses.trans_reads ((hf a).reads (hc.of_reads hpasses.reads) hfa)

/-- What is read next passes a token. -/
theorem after (hp : Stepwise p) (hf : ∀ a d, p c = .ok a d → PassesAt (f a) Q d) :
    PassesAt (p >>= f) Q c := by
  intro hc b e h hb
  obtain ⟨a, d, hpa, hfa⟩ := Parse.exists_of_bind_ok h
  have hreads := hp.reads hc hpa
  exact hreads.trans_passes (hf a d hpa (hc.of_reads hreads) b e hfa hb)

theorem map (g : α → β) (hp : PassesAt p (fun _ => True) c) : PassesAt (g <$> p) Q c := by
  rw [← bind_pure_comp]
  exact hp.bind fun a => .pure (g a)

theorem ite {q : Prop} [Decidable q] {p' : Parse α} (h : PassesAt p P c) (h' : PassesAt p' P c) :
    PassesAt (if q then p else p') P c := by
  split
  · exact h
  · exact h'

theorem withSource (hp : PassesAt p (fun _ => True) c) :
    PassesAt (Parse.withSource p) (fun _ => True) c := by
  intro hc x d h _
  cases hpc : p c with
  | error e d' =>
    rw [Parse.withSource_of_error hpc] at h
    cases h
  | ok a d' =>
    rw [Parse.withSource_of_ok hpc] at h
    cases h
    exact hp hc a _ hpc trivial

end PassesAt

namespace Parse

variable {c : Cursor} {P : α → Prop}

/-! ### One token -/

theorem passesAt_kind_bind {f : TokenKind → Parse α}
    (h : ∀ k, c.current.kind = k → PassesAt (f k) P c) : PassesAt (kind >>= f) P c :=
  fun hc a d hk => h c.current.kind rfl hc a d hk

theorem passesAt_advance {k : TokenKind} (hk : c.current.kind = k) (hne : k ≠ .eof) :
    PassesAt advance (fun _ => True) c := by
  intro _ _ _ h _
  cases h
  exact .advance (hk ▸ hne)

theorem passesAt_skip {k : TokenKind} (hk : c.current.kind = k) (hne : k ≠ .eof) (n : Nat) :
    PassesAt (skip (n + 1)) (fun _ => True) c := by
  intro _ _ _ h _
  cases h
  exact (Cursor.Passes.advance (hk ▸ hne)).trans_reads (.drop n c.advance)

section Accept

variable {p q : Parse α}

/-- The token is read, or what is read where it is not there passes one. -/
theorem passesAt_accept_ite (k : TokenKind) (hne : k ≠ .eof) (hp : Stepwise p)
    (hq : PassesAt q P c) :
    PassesAt (accept k >>= fun present => if present then p else q) P c := by
  intro hc a d h hP
  obtain ⟨present, e, haccept, hrest⟩ := exists_of_bind_ok h
  rw [accept_eq] at haccept
  split at haccept
  · rename_i hk
    cases haccept
    have hpasses : c.Passes c.advance := .advance (hk ▸ hne)
    exact hpasses.trans_reads (hp.reads (hc.of_reads hpasses.reads) hrest)
  · cases haccept
    exact hq hc a d hrest hP

theorem passesAt_acceptWord_ite (words : List Text) (hp : Stepwise p) (hq : PassesAt q P c) :
    PassesAt (acceptWord words >>= fun present => if present then p else q) P c := by
  intro hc a d h hP
  obtain ⟨present, e, haccept, hrest⟩ := exists_of_bind_ok h
  rw [acceptWord_eq] at haccept
  split at haccept
  · rename_i hword
    cases haccept
    have hpasses : c.Passes c.advance := .advance fun hk => by
      rw [hk] at hword
      cases hword
    exact hpasses.trans_reads (hp.reads (hc.of_reads hpasses.reads) hrest)
  · cases haccept
    exact hq hc a d hrest hP

end Accept

theorem passesAt_expectKeyword (k : Keyword) : PassesAt (expectKeyword k) (fun _ => True) c :=
  passesAt_accept_ite (.keyword k) nofun (.pure ()) (.refuse _)

theorem passesAt_expectSymbol (s : Symbol) : PassesAt (expectSymbol s) (fun _ => True) c :=
  passesAt_accept_ite (.symbol s) nofun (.pure ()) (.refuse _)

theorem passesAt_rawGroup : PassesAt rawGroup (fun _ => True) c :=
  ((passesAt_expectSymbol _).bind fun _ => .skipGroup).withSource.bind fun _ => .pure _

/-! ### Default values -/

theorem passesAt_exprWith {argument : Parse Expr} (h : Stepwise argument) :
    PassesAt (exprWith argument) (fun _ => True) c := by
  refine passesAt_kind_bind fun k hk => ?_
  split
  · rename_i l hl
    refine (passesAt_advance hk ?_).bind fun _ => .pure _
    rintro rfl
    cases hl
  · split
    · exact (passesAt_advance hk nofun).bind fun _ => .signedNumber true
    · exact (passesAt_advance hk nofun).bind fun _ => .signedNumber false
    · exact passesAt_rawGroup.bind fun _ => .pure _
    · refine (PassesAt.withSource ?_).bind fun _ => .pure _
      exact (passesAt_advance hk nofun).bind fun _ => .wordExpr h _
    · exact .refuse _

theorem passesAt_expr : PassesAt expr (fun _ => True) c := by
  intro hc e d h
  rw [Stepwise.expr_eq_exprWithin _ c hc.inside (Nat.lt_succ_self _)] at h
  exact passesAt_exprWith (.within _) hc e d h

/-! ### Clauses of a column -/

theorem passesAt_generated : PassesAt generated (fun _ => True) c := by
  refine (passesAt_expectKeyword _).bind fun _ => Stepwise.rawGroup.bind fun _ => ?_
  exact (Stepwise.accept _).bind fun _ =>
    .ite (.pure _) ((Stepwise.accept _).bind fun _ => .pure _)

theorem passesAt_check : PassesAt check (fun _ => True) c := by
  refine (passesAt_expectKeyword _).bind fun _ => Stepwise.rawGroup.bind fun _ => ?_
  refine .notBefore _ (fun _ => ?_) ((Stepwise.acceptWord _).bind fun _ => .pure _)
  exact .ite ((Stepwise.skip 2).bind fun _ => .pure _) (.pure _)

theorem passesAt_references : PassesAt references (fun _ => True) c := by
  refine (PassesAt.withSource ?_).bind fun _ => .pure _
  refine (passesAt_expectKeyword _).bind fun _ => (Stepwise.name _).bind fun _ => ?_
  have hcolumns : Stepwise (do
      if ← atSymbol .leftParen then let _ ← rawGroup
      many referenceClause) :=
    (Stepwise.at? _).bind fun _ =>
      .ite (Stepwise.rawGroup.bind fun _ => .many .referenceClause) (.many .referenceClause)
  exact (Stepwise.accept _).bind fun _ => .ite ((Stepwise.name _).bind fun _ => hcolumns) hcolumns

/-! ### Steps that are repeated -/

theorem passesAt_typeModifier : PassesAt typeModifier (fun m => m.isSome = true) c := by
  refine passesAt_kind_bind fun k hk => ?_
  split
  · exact (passesAt_advance hk nofun).bind fun _ => .pure _
  · exact (passesAt_advance hk nofun).bind fun _ => .pure _
  · exact (passesAt_advance hk nofun).bind fun _ =>
      (Stepwise.expectKeyword _).bind fun _ => (Stepwise.name _).bind fun _ => .pure _
  · exact (passesAt_advance hk nofun).bind fun _ => (Stepwise.name _).bind fun _ => .pure _
  · split
    · rename_i hword
      refine (passesAt_advance hk ?_).bind fun _ => .pure _
      rintro rfl
      cases hword
    · exact .pure nofun

theorem passesAt_columnOption : PassesAt columnOption (fun o => o.isSome = true) c := by
  refine passesAt_kind_bind fun k hk => ?_
  split
  · exact passesAt_generated.bind fun _ => .pure _
  · exact passesAt_check.bind fun _ => .pure _
  · exact passesAt_references.bind fun _ => .pure _
  · rename_i keyword _ _ _
    cases h : optionBehind? keyword with
    | none => exact .pure nofun
    | some option =>
      exact (passesAt_advance hk nofun).bind fun _ => (Stepwise.optionBehind? h).bind fun _ =>
        .pure _
  · have hne {words : List Text} (hword : isWord words k = true) : k ≠ .eof := by
      rintro rfl
      cases hword
    split
    · exact (passesAt_advance hk (hne ‹_›)).bind fun _ => .pure _
    · split
      · exact (passesAt_skip hk (hne ‹_›) 1).bind fun _ => .pure _
      · exact .pure nofun

theorem passesAt_referenceClause :
    PassesAt referenceClause (fun x => x.isSome = true) c := by
  refine passesAt_acceptWord_ite _ (Stepwise.advance.bind fun _ => .pure _) ?_
  have haction : Stepwise (do referenceAction; return some ()) :=
    Stepwise.referenceAction.bind fun _ => .pure _
  refine passesAt_accept_ite (.keyword .on) nofun ?_ (.pure nofun)
  exact (Stepwise.accept _).bind fun _ =>
    .ite haction ((Stepwise.expectKeyword _).bind fun _ => haction)

theorem passesAt_indexAttribute : PassesAt indexAttribute (fun x => x.isSome = true) c := by
  have hvalue : Stepwise (do advance; return some ()) := Stepwise.advance.bind fun _ => .pure _
  refine passesAt_acceptWord_ite _ hvalue (passesAt_accept_ite (.keyword .comment) nofun hvalue ?_)
  refine passesAt_acceptWord_ite _ ((Stepwise.accept _).bind fun _ => hvalue) ?_
  refine passesAt_acceptWord_ite _ ((Stepwise.skip 2).bind fun _ => .pure _) ?_
  exact passesAt_acceptWord_ite _ (.pure _) (.pure nofun)

theorem passesAt_tableOption : PassesAt tableOption (fun o => o.isSome = true) c := by
  have hname (expected : Expected) (f : Text → TableOption) :
      Stepwise (do equals; return some [f (← name expected)]) :=
    Stepwise.equals.bind fun _ => (Stepwise.name expected).bind fun _ => .pure _
  refine .after (.accept _) fun _ d _ => passesAt_kind_bind fun k hk => ?_
  split
  · exact .pure nofun
  · exact .pure nofun
  · exact (passesAt_advance hk nofun).bind fun _ => .pure _
  · exact (passesAt_advance hk nofun).bind fun _ =>
      (Stepwise.expectKeyword _).bind fun _ => hname _ _
  · exact (passesAt_advance hk nofun).bind fun _ => hname _ _
  · exact (passesAt_advance hk nofun).bind fun _ => hname _ _
  · exact (passesAt_advance hk nofun).bind fun _ =>
      Stepwise.equals.bind fun _ => Stepwise.string.bind fun _ => .pure _
  · exact (passesAt_advance hk nofun).bind fun _ =>
      Stepwise.equals.bind fun _ => Stepwise.integer.bind fun _ => .pure _
  · exact (passesAt_advance hk nofun).bind fun _ => (Stepwise.wordOption _).bind fun _ => .pure _
  · exact .refuse _

/-! ### Statements -/

theorem eq_of_skipStatement_of_semicolon {d : Cursor} (h : c.current.kind = .symbol .semicolon)
    (hskip : skipStatement c = .ok () d) : d = c := by
  obtain ⟨hd, -⟩ := eq_of_skipStatement hskip
  have hne : c.ahead ≠ [] := Cursor.ahead_ne_nil (by rw [h]; exact nofun)
  have hplain : ¬ isPlain c.current.kind = true := by
    rw [h]
    exact nofun
  rw [Cursor.ahead_eq_cons hne, List.takeWhile_cons_of_neg (by exact hplain)] at hd
  exact hd

/-- Other statements end behind a semicolon, or they have something in front of their end. -/
theorem passesAt_otherStatement (heof : c.current.kind ≠ .eof) :
    PassesAt otherStatement (fun _ => True) c := by
  by_cases hsemicolon : c.current.kind = .symbol .semicolon
  · refine .after .skipStatement fun _ d hd => ?_
    obtain rfl := eq_of_skipStatement_of_semicolon hsemicolon hd
    refine PassesAt.bind (fun _ _ d haccept _ => ?_) fun _ => .pure _
    rw [acceptSymbol, accept_eq, if_pos hsemicolon] at haccept
    cases haccept
    exact .advance heof
  · refine PassesAt.bind (fun hc _ d hd _ => ?_) fun _ => (Stepwise.accept _).bind fun _ => .pure _
    exact .of_reads (Stepwise.skipStatement.reads hc hd)
      (length_lt_of_skipStatement heof hsemicolon hd)

theorem passesAt_statement {defaults : TableDefaults} (heof : c.current.kind ≠ .eof) :
    PassesAt (statement defaults) (fun _ => True) c := by
  refine passesAt_accept_ite (.keyword .create) nofun ?_ (passesAt_otherStatement heof)
  refine Stepwise.kind.bind fun _ => .ite ?_ .otherStatement
  exact (Stepwise.table defaults).bind fun _ => Stepwise.statementEnd.bind fun _ => .pure _

theorem passesAt_statement? {defaults : TableDefaults} :
    PassesAt (statement? defaults) (fun s => s.isSome = true) c := by
  refine .after (.skipWhile _) fun _ d _ => .after (.at? .eof) fun atEnd e hatEnd => ?_
  cases hatEnd
  by_cases heof : d.current.kind = .eof
  · rw [decide_eq_true heof]
    exact .pure nofun
  · rw [decide_eq_false heof]
    exact (passesAt_statement heof).map some

end Parse

end SchemaModels.Ddl
