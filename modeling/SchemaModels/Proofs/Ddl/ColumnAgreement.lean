import SchemaModels.Ddl.Column.Parser
import SchemaModels.Proofs.Ddl.GroupAgreement

/-!
# Agreement of columns

A column is read up to a comma or a parenthesis. Some of its readers step over a token without
looking at it, which does no harm because the closing parenthesis of the table has to follow.
-/

namespace SchemaModels.Ddl.Parse

variable {w : Surroundings} {c : Cursor}

/-! ### Default values -/

theorem agreesAt_signedNumber (negative : Bool) :
    AgreesAt w true (signedNumber negative) (signedNumber negative) c := by
  refine agreesAt_kind.bind fun k d _ => ?_
  split
  · exact agreesAt_advance_blind.bind fun _ _ _ => .pure _
  · exact agreesAt_advance_blind.bind fun _ _ _ => .pure _
  · exact agreesAt_refuse _

section Arguments

variable {argument argument' : Parse Expr}

theorem agreesAt_arguments
    (h : ∀ d, d.ahead.length ≤ c.ahead.length → AgreesAt w true argument argument' d) :
    AgreesAt w true (arguments argument) (arguments argument') c := by
  refine agreesAt_parenthesized fun d hd => ?_
  refine (agreesAt_atSymbol (by decide)).bind_reads fun _ d' _ hreads => ?_
  refine .ite (.pure []) (agreesAt_commaSeparated fun d'' hd'' => h d'' ?_)
  exact Nat.le_trans hd'' (Nat.le_trans hreads.suffix.length_le hd)

theorem agreesAt_wordExpr (word : Text)
    (h : ∀ d, d.ahead.length ≤ c.ahead.length → AgreesAt w true argument argument' d) :
    AgreesAt w true (wordExpr argument word) (wordExpr argument' word) c := by
  refine agreesAt_kind.bind_reads fun k d _ hreads => ?_
  split
  · exact agreesAt_advance_blind.bind fun _ _ _ => .pure _
  · have harguments : AgreesAt w true (arguments argument) (arguments argument') d :=
      agreesAt_arguments fun d' hd' => h d' (Nat.le_trans hd' hreads.suffix.length_le)
    exact harguments.bind fun args _ _ => .pure (Expr.call word args)
  · exact .pure _

/-- The arguments of a call stand behind the token with which it begins. -/
theorem agreesAt_exprWith
    (h : ∀ d, d.ahead.length < c.ahead.length → AgreesAt w true argument argument' d) :
    AgreesAt w true (exprWith argument) (exprWith argument') c := by
  refine agreesAt_kind.bind fun k d hk => ?_
  cases hk
  dsimp only
  split
  · exact agreesAt_advance_blind.bind fun _ _ _ => .pure _
  · split
    · exact agreesAt_advance_blind.bind fun _ _ _ => agreesAt_signedNumber true
    · exact agreesAt_advance_blind.bind fun _ _ _ => agreesAt_signedNumber false
    · exact agreesAt_rawGroup.bind fun _ _ _ => .pure _
    · rename_i word hword
      refine (agreesAt_withSource (agreesAt_advance_blind.bind fun _ d hd => ?_)).bind
        fun x _ _ => .pure (bitValue word x.2 x.1)
      cases hd
      refine agreesAt_wordExpr word fun d hd => h d (Nat.lt_of_le_of_lt hd ?_)
      exact Cursor.length_advance_lt (by simp [hword])
    · exact agreesAt_refuse _

end Arguments

theorem expr_eq (c : Cursor) : expr c = exprWith
    (fun d => if d.ahead.length < c.ahead.length then expr d else refuse .defaultValue d) c := by
  rw [expr]

theorem agreesAt_expr : AgreesAt w true expr expr c := by
  induction hn : c.ahead.length using Nat.strongRecOn generalizing c with
  | ind n ih =>
      intro hc
      rw [expr_eq c, expr_eq (w.cursor c)]
      refine agreesAt_exprWith (c := c) (fun d hd hin => ?_) hc
      have hd' := Surroundings.length_cursor_lt_iff (w := w).2 hd
      simp only [if_pos hd, if_pos hd']
      exact ih d.ahead.length (hn ▸ hd) rfl hin

/-! ### Types -/

theorem agreesAt_integerBelow (limit : Nat) (tooLarge : ParseError.Cause) :
    AgreesAt w true (integerBelow limit tooLarge) (integerBelow limit tooLarge) c := by
  refine agreesAt_kind.bind fun k d _ => ?_
  split
  · exact .ite (agreesAt_advance_blind.bind fun _ _ _ => .pure _) (agreesAt_fail tooLarge)
  · exact agreesAt_refuse _

theorem agreesAt_length? : AgreesAt w true length? length? c := by
  refine (agreesAt_atSymbol (by decide)).bind fun _ d _ => .ite ?_ (.pure none)
  refine (agreesAt_parenthesized fun _ _ => agreesAt_integerBelow _ _).bind fun n _ _ => ?_
  exact .pure _

theorem agreesAt_precisionAndScale :
    AgreesAt w true precisionAndScale precisionAndScale c := by
  refine (agreesAt_atSymbol (by decide)).bind fun _ d _ => .ite ?_ (.pure _)
  refine agreesAt_parenthesized fun d _ => ?_
  refine (agreesAt_integerBelow _ _).bind fun precision _ _ => ?_
  refine (agreesAt_acceptSymbol (Or.inr (by decide))).bind fun _ _ _ => .ite ?_ (.pure _)
  exact (agreesAt_integerBelow _ _).bind fun scale _ _ => .pure _

theorem agreesAt_members : AgreesAt w true members members c :=
  agreesAt_parenthesized fun _ _ => agreesAt_commaSeparated fun _ _ => agreesAt_string

theorem agreesAt_typeOfForm (form : TypeForm) :
    AgreesAt w true (typeOfForm form) (typeOfForm form) c := by
  cases form with
  | sized k => exact agreesAt_length?.bind fun _ _ _ => .pure _
  | precise k => exact agreesAt_precisionAndScale.bind fun _ _ _ => .pure _
  | plain k => exact .pure _
  | double =>
      refine (agreesAt_acceptWord _).bind fun _ _ _ => ?_
      exact agreesAt_precisionAndScale.bind fun _ _ _ => .pure _
  | character =>
      refine (agreesAt_acceptWord _).bind fun _ _ _ => ?_
      exact agreesAt_length?.bind fun _ _ _ => .pure _
  | enum => exact agreesAt_members.bind fun _ _ _ => .pure _
  | set => exact agreesAt_members.bind fun _ _ _ => .pure _

theorem agreesAt_dataType : AgreesAt w true dataType dataType c := by
  refine (agreesAt_name _).bind fun word _ _ => ?_
  cases TypeForm.ofWord? word with
  | some form => exact agreesAt_typeOfForm form
  | none =>
      refine (agreesAt_atSymbol (by decide)).bind fun _ _ _ => .ite ?_ (.pure _)
      exact agreesAt_rawGroup.bind fun _ _ _ => .pure _

theorem agreesAt_typeModifier : AgreesAt w true typeModifier typeModifier c := by
  refine agreesAt_kind.bind fun k d _ => ?_
  split
  · exact agreesAt_advance_blind.bind fun _ _ _ => .pure _
  · exact agreesAt_advance_blind.bind fun _ _ _ => .pure _
  · refine agreesAt_advance_blind.bind fun _ _ _ => ?_
    refine (agreesAt_expectKeyword _).bind fun _ _ _ => ?_
    exact (agreesAt_name _).bind fun _ _ _ => .pure _
  · refine agreesAt_advance_blind.bind fun _ _ _ => ?_
    exact (agreesAt_name _).bind fun _ _ _ => .pure _
  · exact .ite (agreesAt_advance_blind.bind fun _ _ _ => .pure _) (.pure none)

theorem agreesAt_fieldType : AgreesAt w true fieldType fieldType c := by
  refine agreesAt_dataType.bind fun t _ _ => ?_
  exact (agreesAt_many fun _ _ => agreesAt_typeModifier).bind fun _ _ _ => .pure _

/-! ### Column options -/

theorem agreesAt_generated : AgreesAt w true generated generated c := by
  refine (agreesAt_expectKeyword _).bind fun _ _ _ => ?_
  refine agreesAt_rawGroup.bind fun group _ _ => ?_
  refine (agreesAt_acceptKeyword _).bind fun stored _ _ => ?_
  refine .ite (.pure _) ?_
  exact (agreesAt_acceptKeyword _).bind fun _ _ _ => .pure _

theorem agreesAt_check : AgreesAt w true check check c := by
  refine (agreesAt_expectKeyword _).bind fun _ _ _ => ?_
  refine agreesAt_rawGroup.bind fun group _ _ => ?_
  refine (agreesAt_atKeyword _).bind fun _ _ _ => .ite ?_ ?_
  · refine (agreesAt_beforeWord _).bind fun _ _ _ => .ite ?_ (.pure _)
    exact (agreesAt_skip 2).bind fun _ _ _ => .pure _
  · exact (agreesAt_acceptWord _).bind fun _ _ _ => .pure _

theorem agreesAt_referenceAction : AgreesAt w true referenceAction referenceAction c := by
  refine (agreesAt_acceptKeyword _).bind fun _ _ _ => .ite agreesAt_advance_blind ?_
  refine (agreesAt_acceptWord _).bind fun _ _ _ => .ite agreesAt_advance_blind ?_
  exact agreesAt_name?.bind fun _ _ _ => .ite agreesAt_advance_blind (agreesAt_refuse _)

theorem agreesAt_referenceClause : AgreesAt w true referenceClause referenceClause c := by
  refine (agreesAt_acceptWord _).bind fun _ _ _ => .ite ?_ ?_
  · exact agreesAt_advance_blind.bind fun _ _ _ => .pure _
  · refine (agreesAt_acceptKeyword _).bind fun _ _ _ => .ite ?_ (.pure none)
    refine (agreesAt_acceptKeyword _).bind fun _ _ _ => .ite ?_ ?_
    · exact agreesAt_referenceAction.bind fun _ _ _ => .pure _
    · refine (agreesAt_expectKeyword _).bind fun _ _ _ => ?_
      exact agreesAt_referenceAction.bind fun _ _ _ => .pure _

theorem agreesAt_references : AgreesAt w true references references c := by
  refine agreesAt_sourceOf ?_
  refine (agreesAt_expectKeyword _).bind fun _ _ _ => ?_
  refine (agreesAt_name _).bind fun _ _ _ => ?_
  have hclauses (d : Cursor) : AgreesAt w true (many referenceClause) (many referenceClause) d :=
    agreesAt_many fun _ _ => agreesAt_referenceClause
  have hcolumns (d : Cursor) : AgreesAt w true
      (do if ← atSymbol .leftParen then let _ ← rawGroup
          many referenceClause)
      (do if ← atSymbol .leftParen then let _ ← rawGroup
          many referenceClause) d := by
    refine (agreesAt_atSymbol (by decide)).bind fun _ _ _ => .ite ?_ (hclauses _)
    exact agreesAt_rawGroup.bind fun _ _ _ => hclauses _
  refine (agreesAt_acceptSymbol (Or.inr (by decide))).bind fun _ _ _ => .ite ?_ (hcolumns _)
  exact (agreesAt_name _).bind fun _ _ _ => hcolumns _

theorem agreesAt_optionBehind? {k : Keyword} {option : Parse ColumnOption}
    (h : optionBehind? k = some option) : AgreesAt w true option option c := by
  cases k with
  | not =>
      cases h
      exact (agreesAt_expectKeyword _).bind fun _ _ _ => .pure _
  | null =>
      cases h
      exact .pure _
  | default =>
      cases h
      exact agreesAt_expr.bind fun _ _ _ => .pure _
  | autoIncrement =>
      cases h
      exact .pure _
  | primary =>
      cases h
      exact (agreesAt_expectKeyword _).bind fun _ _ _ => .pure _
  | key =>
      cases h
      exact .pure _
  | unique =>
      cases h
      exact (agreesAt_acceptKeyword _).bind fun _ _ _ => .pure _
  | comment =>
      cases h
      exact agreesAt_string.bind fun _ _ _ => .pure _
  | on =>
      cases h
      refine (agreesAt_expectKeyword _).bind fun _ _ _ => ?_
      exact agreesAt_expr.bind fun _ _ _ => .pure _
  | collate =>
      cases h
      exact (agreesAt_name _).bind fun _ _ _ => .pure _
  | generated =>
      cases h
      exact (agreesAt_expectKeyword _).bind fun _ _ _ => agreesAt_generated
  | constraint =>
      cases h
      have hcheck (d : Cursor) : AgreesAt w true (do return ColumnOption.check (← check))
          (do return ColumnOption.check (← check)) d :=
        agreesAt_check.bind fun _ _ _ => .pure _
      refine (agreesAt_atKeyword _).bind fun _ _ _ => .ite (hcheck _) ?_
      exact (agreesAt_name _).bind fun _ _ _ => hcheck _
  | _ => cases h

theorem agreesAt_columnOption : AgreesAt w true columnOption columnOption c := by
  refine agreesAt_kind.bind fun k d _ => ?_
  split
  · exact agreesAt_generated.bind fun _ _ _ => .pure _
  · exact agreesAt_check.bind fun _ _ _ => .pure _
  · exact agreesAt_references.bind fun _ _ _ => .pure _
  · rename_i keyword _ _ _ _
    cases h : optionBehind? keyword with
    | none => exact .pure none
    | some option =>
        refine agreesAt_advance_blind.bind fun _ _ _ => ?_
        exact (agreesAt_optionBehind? h).bind fun _ _ _ => .pure _
  · refine .ite (agreesAt_advance_blind.bind fun _ _ _ => .pure _) ?_
    exact .ite ((agreesAt_skip 2).bind fun _ _ _ => .pure _) (.pure none)

theorem agreesAt_column : AgreesAt w true column column c := by
  refine (agreesAt_name _).bind fun _ _ _ => ?_
  refine agreesAt_fieldType.bind fun _ _ _ => ?_
  exact (agreesAt_many fun _ _ => agreesAt_columnOption).bind fun _ _ _ => .pure _

end SchemaModels.Ddl.Parse
