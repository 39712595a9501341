import SchemaModels.Proofs.Ddl.TakingReaders

/-!
# The tokens of columns

The readers of values, types, options and columns take the clauses of the same names.
-/

namespace SchemaModels.Ddl.Parse

open Computability
open Clause (captured optional_mul)

variable {c : Cursor}

/-! ### Default values -/

theorem takesAt_signedNumber (negative : Bool) :
    TakesAt Grammar.number (signedNumber negative) c := by
  refine takesAt_kind_bind ?_
  split
  · rename_i n hk
    exact (takesAt_advance (by rw [hk]) rfl).bind_pure _
  · rename_i x hk
    exact (takesAt_advance (by rw [hk]) rfl).bind_pure _
  · exact takesAt_refuse _

section Arguments

variable {L : Clause} {argument : Parse Expr}

theorem takesAt_arguments (h : ∀ d, TakesAt L argument d) :
    TakesAt (Grammar.arguments L) (arguments argument) c := by
  refine takesAt_parenthesized fun d => .bind_of_ok rfl ?_
  split
  · exact .inl (.pure [])
  · exact .inr (takesAt_commaSeparated h)

theorem takesAt_wordExpr (word : Text) (h : ∀ d, TakesAt L argument d) :
    TakesAt (Grammar.string + Grammar.arguments L + 1) (wordExpr argument word) c := by
  refine takesAt_kind_bind ?_
  split
  · rename_i s hk
    exact .inl (.inl ((takesAt_advance (by rw [hk]) rfl).bind_pure _))
  · exact .inl (.inr ((takesAt_arguments h).bind_pure _))
  · exact .inr (.pure _)

theorem takesAt_exprWith (h : ∀ d, TakesAt L argument d) :
    TakesAt (Grammar.valueWith L) (exprWith argument) c := by
  refine takesAt_kind_bind ?_
  split
  · rename_i l hl
    have hliteral : TakesAt Grammar.literal advance c := takesAt_advance (by rw [hl]; rfl) rfl
    exact .inl (.inl (.inl (.inl (hliteral.bind_pure _))))
  · split
    · rename_i hk
      have hminus := takesAt_advance_of_kind hk rfl nofun
      exact .inl (.inl (.inl (.inr (hminus.bind fun _ _ => takesAt_signedNumber true))))
    · rename_i hk
      have hplus := takesAt_advance_of_kind hk rfl nofun
      exact .inl (.inl (.inr (hplus.bind fun _ _ => takesAt_signedNumber false)))
    · exact .inl (.inr (takesAt_rawGroup.bind_pure _))
    · rename_i word hk
      have hword : TakesAt Grammar.identifier advance c := takesAt_advance (by rw [hk]) rfl
      have hexpr := hword.bind fun _ _ => takesAt_wordExpr word h
      exact .inr ((takesAt_withSource hexpr).bind_pure fun x => bitValue word x.2 x.1)
    · exact takesAt_refuse _

end Arguments

/-- Each argument begins behind a token of its own, so calls are no deeper than there are tokens. -/
theorem takesAt_expr_of_length {n : Nat} (hn : c.ahead.length < n) :
    TakesAt (Grammar.valueOfDepth n) expr c := by
  induction n generalizing c with
  | zero => exact absurd hn (Nat.not_lt_zero _)
  | succ n ih =>
      intro a d h
      rw [expr_eq c] at h
      refine takesAt_exprWith (fun e => ?_) a d h
      -- The reader of an argument refuses where no token has been taken before it.
      intro b d' hb
      by_cases he : e.ahead.length < c.ahead.length
      · simp only [if_pos he] at hb
        exact ih (by omega) b d' hb
      · simp only [if_neg he] at hb
        cases hb

theorem takesAt_expr : TakesAt Grammar.value expr c :=
  .anyOf (c.ahead.length + 1) (takesAt_expr_of_length (Nat.lt_succ_self _))

/-! ### Types -/

theorem takesAt_integerBelow (limit : Nat) (tooLarge : ParseError.Cause) :
    TakesAt Grammar.integer (integerBelow limit tooLarge) c := by
  refine takesAt_kind_bind ?_
  split
  · rename_i n hk
    refine .ite (fun _ => ?_) fun _ => takesAt_fail tooLarge
    exact (takesAt_advance (by rw [hk]) rfl).bind_pure _
  · exact takesAt_refuse _

theorem takesAt_length? : TakesAt Grammar.length? length? c := by
  refine .bind_of_ok rfl ?_
  split
  · exact .inl ((takesAt_parenthesized fun _ => takesAt_integerBelow _ _).bind_pure _)
  · exact .inr (.pure none)

theorem takesAt_precisionAndScale : TakesAt Grammar.precisionAndScale precisionAndScale c := by
  refine .bind_of_ok rfl ?_
  split
  · refine .inl (takesAt_parenthesized fun d => ?_)
    refine (takesAt_integerBelow _ _).bind fun precision _ => ?_
    exact (accepts_symbol rfl).bind (fun _ => (takesAt_integerBelow _ _).bind_pure _) (.pure _)
  · exact .inr (.pure _)

theorem takesAt_members : TakesAt (.group (Grammar.separated Grammar.string)) members c :=
  takesAt_parenthesized fun _ => takesAt_commaSeparated fun _ => takesAt_string

theorem takesAt_typeOfForm (form : TypeForm) :
    TakesAt (Grammar.typeOfForm form) (typeOfForm form) c := by
  cases form with
  | sized k => exact takesAt_length?.bind_pure _
  | precise k => exact takesAt_precisionAndScale.bind_pure _
  | plain k => exact .pure _
  | double =>
      exact (accepts_word _).takesAt.bind fun _ _ => takesAt_precisionAndScale.bind_pure _
  | character => exact (accepts_word _).takesAt.bind fun _ _ => takesAt_length?.bind_pure _
  | enum => exact takesAt_members.bind_pure _
  | set => exact takesAt_members.bind_pure _

theorem takesAt_dataType : TakesAt Grammar.dataType dataType c := by
  refine (takesAt_name _).bind fun word _ => ?_
  cases TypeForm.ofWord? word with
  | some form => exact .inl (.anyOf form (takesAt_typeOfForm form))
  | none =>
      refine .inr (.bind_of_ok rfl ?_)
      split
      · exact .inl (takesAt_rawGroup.bind_pure _)
      · exact .inr (.pure _)

theorem takesAt_typeModifier : TakesAt Grammar.typeModifier typeModifier c := by
  refine takesAt_kind_bind ?_
  split
  · rename_i hk
    exact .inl (.inl (takesAt_keywordThen hk fun _ => .pure _))
  · rename_i hk
    exact .inl (.inl (takesAt_keywordThen hk fun _ => .pure _))
  · rename_i hk
    refine .inl (.inl (takesAt_keywordThen hk fun _ => ?_))
    exact (takesAt_expectKeyword _).bind fun _ _ => (takesAt_name _).bind_pure _
  · rename_i hk
    exact .inl (.inl (takesAt_keywordThen hk fun _ => (takesAt_name _).bind_pure _))
  · split
    · rename_i hword
      exact .inl (.inr ((takesAt_advance hword rfl).bind_pure _))
    · exact .inr (.pure none)

theorem takesAt_fieldType : TakesAt Grammar.fieldType fieldType c :=
  takesAt_dataType.bind fun _ _ => (takesAt_many fun _ => takesAt_typeModifier).bind_pure _

/-! ### Column options -/

theorem takesAt_generated : TakesAt Grammar.generated generated c := by
  refine (takesAt_expectKeyword _).bind fun _ _ => ?_
  refine takesAt_rawGroup.bind fun group _ => ?_
  refine (accepts_keyword _).bind_pure rfl ?_
  exact (accepts_keyword _).takesAt.bind_pure _

/-- The words `NOT ENFORCED` are looked at together. -/
theorem takesAt_skip_notEnforced (hnot : c.current.kind = .keyword .not)
    (henforced : isWord ["ENFORCED"] c.following.kind = true) :
    TakesAt (Grammar.keyword .not * Grammar.word ["ENFORCED"]) (skip 2) c := by
  intro a d h
  cases h
  obtain ⟨ws, hws, hahead⟩ := takesAt_advance_of_kind hnot rfl nofun () c.advance rfl
  have hword : TakesAt (Grammar.word ["ENFORCED"]) advance c.advance :=
    takesAt_advance henforced rfl
  obtain ⟨ws', hws', hahead'⟩ := hword () _ rfl
  refine ⟨ws ++ ws', Language.append_mem_mul hws hws', ?_⟩
  rw [hahead, hahead', tokensOf_append, List.append_assoc]
  rfl

theorem takesAt_check : TakesAt Grammar.check check c := by
  refine (takesAt_expectKeyword _).bind fun _ _ => ?_
  refine takesAt_rawGroup.bind fun group d => ?_
  refine .bind_of_ok (a := decide (d.current.kind = .keyword .not)) rfl ?_
  split
  · rename_i hnot
    refine .bind_of_ok rfl ?_
    split
    · rename_i henforced
      exact .inl ((takesAt_skip_notEnforced (of_decide_eq_true hnot) henforced).bind_pure _)
    · exact .inr (.inr (.pure _))
  · exact .inr ((accepts_word _).takesAt.bind_pure _)

/-! ### References -/

theorem takesAt_referenceAction : TakesAt Grammar.referenceAction referenceAction c := by
  refine (accepts_keyword _).bind (fun _ => takesAt_dropped) ?_
  refine (accepts_word _).bind (fun _ => takesAt_dropped) ?_
  intro a d h
  obtain ⟨n, e, hname, hrest⟩ := exists_of_bind_ok h
  obtain ⟨rfl, hadvance⟩ := takesAt_advance_of_name? hname
  cases n with
  | none => cases hrest
  | some n => exact hadvance rfl a d hrest

theorem takesAt_referenceClause : TakesAt Grammar.referenceClause referenceClause c := by
  refine (accepts_word _).bind (fun _ => takesAt_dropped.bind_pure _) ?_
  refine (accepts_keyword _).bind (fun _ => ?_) (.pure none)
  refine (accepts_keyword _).bind (fun _ => takesAt_referenceAction.bind_pure _) ?_
  exact (takesAt_expectKeyword _).bind fun _ _ => takesAt_referenceAction.bind_pure _

theorem takesAt_references : TakesAt Grammar.references references c := by
  refine takesAt_sourceOf ?_
  refine (takesAt_expectKeyword _).bind fun _ _ => ?_
  refine (takesAt_name _).bind fun _ _ => ?_
  have hcolumns (d : Cursor) : TakesAt ((captured + 1) * Grammar.referenceClause∗) (do
      if ← atSymbol .leftParen then let _ ← rawGroup
      many referenceClause) d := by
    rw [optional_mul]
    refine .bind_of_ok rfl ?_
    split
    · exact .inl (takesAt_rawGroup.bind fun _ _ => takesAt_many fun _ => takesAt_referenceClause)
    · exact .inr (takesAt_many fun _ => takesAt_referenceClause)
  rw [optional_mul, Clause.mul_assoc]
  refine (accepts_symbol rfl).bind (fun _ => ?_) (hcolumns _)
  exact (takesAt_name _).bind fun _ _ => hcolumns _

/-! ### Columns -/

theorem takesAt_optionBehind? {k : Keyword} {option : Parse ColumnOption}
    (h : optionBehind? k = some option) : TakesAt (Grammar.optionBehind k) option c := by
  cases k with
  | not =>
      cases h
      exact (takesAt_expectKeyword _).bind_pure _
  | default =>
      cases h
      exact takesAt_expr.bind_pure _
  | primary =>
      cases h
      exact (takesAt_expectKeyword _).bind_pure _
  | unique =>
      cases h
      exact (accepts_keyword _).takesAt.bind_pure _
  | comment =>
      cases h
      exact takesAt_string.bind_pure _
  | on =>
      cases h
      exact (takesAt_expectKeyword _).bind fun _ _ => takesAt_expr.bind_pure _
  | collate =>
      cases h
      exact (takesAt_name _).bind_pure _
  | generated =>
      cases h
      exact (takesAt_expectKeyword _).bind fun _ _ => takesAt_generated
  | constraint =>
      cases h
      have hcheck (d : Cursor) :
          TakesAt Grammar.check (do return ColumnOption.check (← check)) d :=
        takesAt_check.bind_pure _
      change TakesAt ((Grammar.name + 1) * Grammar.check) _ c
      rw [optional_mul]
      refine .bind_of_ok rfl ?_
      split
      · exact .inr (hcheck _)
      · exact .inl ((takesAt_name _).bind fun _ _ => hcheck _)
  | null | autoIncrement | key =>
      cases h
      exact .pure _
  | _ => cases h

theorem takesAt_columnOption : TakesAt Grammar.columnOption columnOption c := by
  refine takesAt_kind_bind ?_
  split
  · exact .inl (.inl (.inl (.inl (.inl (.inl (takesAt_generated.bind_pure _))))))
  · exact .inl (.inl (.inl (.inl (.inl (.inr (takesAt_check.bind_pure _))))))
  · exact .inl (.inl (.inl (.inl (.inr (takesAt_references.bind_pure _)))))
  · rename_i keyword _ _ _ hk
    cases h : optionBehind? keyword with
    | none => exact .inr (.pure none)
    | some option =>
        refine .inl (.inl (.inl (.inr (takesAt_keywordThen hk fun _ => ?_))))
        exact (takesAt_optionBehind? h).bind_pure _
  · split
    · rename_i hword
      exact .inl (.inl (.inr ((takesAt_advance hword rfl).bind_pure _)))
    · split
      · rename_i hword
        refine .inl (.inr ?_)
        exact ((takesAt_advance hword rfl).bind fun _ _ => takesAt_dropped).bind_pure _
      · exact .inr (.pure none)

theorem takesAt_column : TakesAt Grammar.column column c := by
  refine (takesAt_name _).bind fun _ _ => ?_
  exact takesAt_fieldType.bind fun _ _ => (takesAt_many fun _ => takesAt_columnOption).bind_pure _

end SchemaModels.Ddl.Parse
