import SchemaModels.Proofs.Ddl.Postconditions

/-!
# What parsed tables are like

Not every table that can be written down is one that a source text gives: a scale stands only behind
a precision, an enumeration has a member, and integers are those of the lexer, with or without a
sign (`isParsed_of_mem`).
-/

namespace SchemaModels.Ddl

/-- A scale stands behind a precision, and an enumeration has members. -/
def DataType.IsParsed : DataType → Prop
  | .precise _ precision scale => scale.isSome → precision.isSome
  | .enum ms | .set ms => ms ≠ []
  | .sized _ _ | .plain _ | .custom _ => True

/-- An integer is one of the lexer, with or without a sign. -/
def Expr.IsParsed : Expr → Prop
  | .literal (.integer n) => -2 ^ 63 < n ∧ n < 2 ^ 63
  | _ => True

def ColumnOption.IsParsed : ColumnOption → Prop
  | .default e | .onUpdate e => e.IsParsed
  | _ => True

structure Column.IsParsed (c : Column) : Prop where
  dataType : c.type.dataType.IsParsed
  options : ∀ o ∈ c.options, o.IsParsed

def TableOption.IsParsed : TableOption → Prop
  | .autoIncrement n => n.toNat < 2 ^ 63
  | _ => True

structure Table.IsParsed (t : Table) : Prop where
  columns : ∀ c ∈ t.columns, c.IsParsed
  options : ∀ o ∈ t.options, o.IsParsed

/-- One option. -/
theorem Yields.one {α : Type} {P : α → Prop} {a : α} (h : P a) :
    Yields (Pure.pure (some [a])) fun x => ∀ as ∈ x, ∀ a ∈ as, P a := by
  refine .pure fun as has => ?_
  cases has
  exact List.forall_mem_singleton.2 h

/-- What gives no option. -/
theorem Yields.nothing {α : Type} {P : α → Prop} :
    Yields (Pure.pure (some [])) fun x => ∀ as ∈ x, ∀ a ∈ as, P a := by
  refine .pure fun as has => ?_
  cases has
  exact List.forall_mem_nil _

namespace Parse

open Yields (of_stepwise)

/-! ### Default values -/

theorem yields_signedNumber (negative : Bool) : Yields (signedNumber negative) Expr.IsParsed := by
  refine Yields.kind.bind fun k hk => ?_
  split
  · rename_i n
    have hn : n < 2 ^ 63 := hk n rfl
    refine .after .advance fun _ => .pure (show _ ∧ _ from ?_)
    cases negative with
    | true => exact ⟨by simp; omega, by simp; omega⟩
    | false => exact ⟨by simp; omega, by simp; omega⟩
  · exact .after .advance fun _ => .pure trivial
  · exact .refuse _

theorem yields_wordExpr {argument : Parse Expr} (h : Stepwise argument) (word : Text) :
    Yields (wordExpr argument word) fun e => ∀ source, (bitValue word source e).IsParsed := by
  refine .after .kind fun k => ?_
  split
  · refine .after .advance fun _ => .pure fun source => ?_
    unfold bitValue
    dsimp only
    split <;> trivial
  · exact .after (.arguments h) fun _ => .pure fun _ => trivial
  · exact .pure fun _ => trivial

theorem yields_exprWith {argument : Parse Expr} (h : Stepwise argument) :
    Yields (exprWith argument) Expr.IsParsed := by
  refine Yields.kind.bind fun k hk => ?_
  dsimp only
  split
  · rename_i l hl
    refine .after .advance fun _ => .pure ?_
    cases k with
    | integer n =>
      cases hl
      have hn : n < 2 ^ 63 := hk n rfl
      exact ⟨by omega, by omega⟩
    | keyword w => cases w <;> cases hl <;> trivial
    | _ => cases hl <;> trivial
  · split
    · exact .after .advance fun _ => yields_signedNumber true
    · exact .after .advance fun _ => yields_signedNumber false
    · exact .after .rawGroup fun _ => .pure trivial
    · refine (Yields.after .advance fun _ => yields_wordExpr h _).withSource.bind fun x hx => ?_
      exact .pure (hx x.2)
    · exact .refuse _

theorem yields_expr : Yields expr Expr.IsParsed := by
  intro c e d hc h
  rw [Stepwise.expr_eq_exprWithin _ c hc.inside (Nat.lt_succ_self _)] at h
  exact yields_exprWith (.within _) c e d hc h

/-! ### Columns -/

theorem yields_precisionAndScale :
    Yields precisionAndScale fun x => x.2.isSome → x.1.isSome := by
  refine .after (.at? _) fun _ => .ite ?_ (.pure nofun)
  refine .parenthesized (.after (.integerBelow _ fun _ => rfl) fun _ => ?_)
  refine .after (.accept _) fun _ => .ite ?_ (.pure nofun)
  exact .after (.integerBelow _ fun _ => rfl) fun _ => .pure fun _ => rfl

theorem yields_members : Yields members (· ≠ []) :=
  (Yields.parenthesized (of_stepwise .string).commaSeparated).mono fun _ h => h.1

theorem yields_typeOfForm (form : TypeForm) : Yields (typeOfForm form) DataType.IsParsed := by
  cases form with
  | sized k => exact .after .length? fun _ => .pure trivial
  | precise k => exact yields_precisionAndScale.bind fun _ h => .pure h
  | plain k => exact .pure trivial
  | double => exact .after (.acceptWord _) fun _ => yields_precisionAndScale.bind fun _ h => .pure h
  | character => exact .after (.acceptWord _) fun _ => .after .length? fun _ => .pure trivial
  | enum => exact yields_members.bind fun _ h => .pure h
  | set => exact yields_members.bind fun _ h => .pure h

theorem yields_dataType : Yields dataType DataType.IsParsed := by
  refine .after (.name _) fun word => ?_
  cases TypeForm.ofWord? word with
  | some form => exact yields_typeOfForm form
  | none =>
    refine .after (.at? _) fun _ => .ite (.after .rawGroup fun _ => ?_) (.pure trivial)
    exact .pure trivial

theorem dataType_modify (t : FieldType) (m : TypeModifier) :
    (t.modify m).dataType = t.dataType := by
  cases m <;> rfl

theorem dataType_foldl_modify (t : FieldType) (ms : List TypeModifier) :
    (ms.foldl .modify t).dataType = t.dataType := by
  induction ms generalizing t with
  | nil => rfl
  | cons m ms ih => rw [List.foldl_cons, ih, dataType_modify]

theorem yields_fieldType : Yields fieldType fun t => t.dataType.IsParsed := by
  refine yields_dataType.bind fun t ht => .after (.many .typeModifier) fun ms => .pure ?_
  rw [dataType_foldl_modify]
  exact ht

theorem yields_generated : Yields generated ColumnOption.IsParsed := by
  refine .after (.expectKeyword _) fun _ => .after .rawGroup fun _ => ?_
  refine .after (.accept _) fun _ => .ite (.pure trivial) ?_
  exact .after (.accept _) fun _ => .pure trivial

theorem yields_optionBehind? {k : Keyword} {option : Parse ColumnOption}
    (h : optionBehind? k = some option) : Yields option ColumnOption.IsParsed := by
  have hcheck : Yields (do return ColumnOption.check (← check)) ColumnOption.IsParsed :=
    .after .check fun _ => .pure trivial
  have hexpr : Yields expr fun e => e.IsParsed := yields_expr
  cases k <;> cases h
  case default => exact hexpr.bind fun _ he => .pure he
  case on => exact .after (.expectKeyword _) fun _ => hexpr.bind fun _ he => .pure he
  case generated => exact .after (.expectKeyword _) fun _ => yields_generated
  case constraint =>
    exact .after (.at? _) fun _ => .ite hcheck (.after (.name _) fun _ => hcheck)
  case not | primary => exact .after (.expectKeyword _) fun _ => .pure trivial
  case unique => exact .after (.accept _) fun _ => .pure trivial
  case comment => exact .after .string fun _ => .pure trivial
  case collate => exact .after (.name _) fun _ => .pure trivial
  case null | autoIncrement | key => exact .pure trivial

theorem yields_columnOption :
    Yields columnOption fun x => ∀ os ∈ x, ∀ o ∈ os, o.IsParsed := by
  refine .after .kind fun k => ?_
  split
  · exact yields_generated.bind fun o ho => .one ho
  · exact .after .check fun _ => .one trivial
  · exact .after .references fun _ => .one trivial
  · rename_i keyword _ _ _
    cases h : optionBehind? keyword with
    | none => exact .pure nofun
    | some option =>
      refine .after .advance fun _ => (yields_optionBehind? h).bind fun o ho => .one ho
  · refine .ite (.after .advance fun _ => .nothing) ?_
    exact .ite (.after (.skip 2) fun _ => .nothing) (.pure nofun)

theorem yields_column : Yields column Column.IsParsed := by
  refine .after (.name _) fun n => yields_fieldType.bind fun t ht => ?_
  refine yields_columnOption.many.bind fun oss hoss => .pure ⟨ht, fun o ho => ?_⟩
  obtain ⟨os, hos, ho⟩ := List.mem_flatten.1 ho
  exact hoss os hos o ho

/-! ### Tables -/

theorem yields_tableEntry : Yields tableEntry fun
    | .column c => c.IsParsed
    | .constraint _ => True := by
  refine .after .atConstraint fun _ => .ite ?_ ?_
  · exact .after .constraint fun _ => .pure trivial
  · exact yields_column.bind fun _ hc => .pure hc

theorem yields_integer : Yields integer fun n => (UInt64.ofNat n).toNat < 2 ^ 63 := by
  refine Yields.kind.bind fun k hk => ?_
  split
  · rename_i n
    have hn : n < 2 ^ 63 := hk n rfl
    refine .after .advance fun _ => .pure ?_
    rw [UInt64.toNat_ofNat_of_lt' (Nat.lt_trans hn (by decide))]
    exact hn
  · exact .refuse _

theorem yields_tableOption : Yields tableOption fun x => ∀ os ∈ x, ∀ o ∈ os, o.IsParsed := by
  refine .after (.accept _) fun _ => .after .kind fun k => ?_
  split
  · exact .pure nofun
  · exact .pure nofun
  · exact .after .advance fun _ => .nothing
  · refine .after .advance fun _ => .after (.expectKeyword _) fun _ => ?_
    exact .after .equals fun _ => .after (.name _) fun _ => .one trivial
  · exact .after .advance fun _ => .after .equals fun _ => .after (.name _) fun _ =>
      .one trivial
  · exact .after .advance fun _ => .after .equals fun _ => .after (.name _) fun _ =>
      .one trivial
  · exact .after .advance fun _ => .after .equals fun _ => .after .string fun _ =>
      .one trivial
  · exact .after .advance fun _ => .after .equals fun _ => yields_integer.bind fun _ hn =>
      .one hn
  · rename_i word
    have hword : Yields (wordOption word) TableOption.IsParsed := by
      refine .ite (.after .balancedTail fun _ => .pure trivial) ?_
      refine .after .equals fun _ => .after .optionValue fun _ => ?_
      exact .ite (.pure trivial) (.pure trivial)
    exact .after .advance fun _ => hword.bind fun _ ho => .one ho
  · exact .refuse _

theorem yields_table (defaults : TableDefaults) : Yields (table defaults) Table.IsParsed := by
  refine .after (.accept _) fun temporary => .after (.expectKeyword _) fun _ => ?_
  refine .after .ifNotExists fun exists? => .after .qualifiedName fun names => ?_
  refine .after (.at? _) fun _ => .ite (Yields.bind (.fail _) fun _ (h : False) => h.elim) ?_
  refine (Yields.parenthesized yields_tableEntry.commaSeparated).bind fun entries hentries => ?_
  have hoptions : Yields tableOptions fun os => ∀ o ∈ os, o.IsParsed := by
    refine yields_tableOption.many.bind fun oss hoss => .pure fun o ho => ?_
    obtain ⟨os, hos, ho⟩ := List.mem_flatten.1 ho
    exact hoss os hos o ho
  refine hoptions.bind fun options hoptions => .pure ⟨fun c hc => ?_, hoptions⟩
  obtain ⟨e, he, hce⟩ := List.mem_filterMap.1 hc
  cases e with
  | column c' =>
    cases hce
    exact hentries.2 _ he
  | constraint k => cases hce

theorem yields_statement (defaults : TableDefaults) :
    Yields (statement defaults) fun s => ∀ t, s = .createTable t → t.IsParsed := by
  have hother : Yields otherStatement fun s => ∀ t, s = .createTable t → t.IsParsed :=
    .after .skipStatement fun _ => .after (.accept _) fun _ => .pure nofun
  refine .after (.accept _) fun _ => .ite (.after .kind fun _ => .ite ?_ hother) hother
  refine (yields_table defaults).bind fun t ht => .after .statementEnd fun _ => .pure fun t' h => ?_
  cases h
  exact ht

theorem yields_statements (defaults : TableDefaults) :
    Yields (statements defaults) fun ss => ∀ s ∈ ss, ∀ t, s = .createTable t → t.IsParsed := by
  refine .many (.after (.skipWhile _) fun _ => .after (.at? _) fun _ => .ite (.pure nofun) ?_)
  refine .map some ((yields_statement defaults).mono fun s hs s' hs' => ?_)
  cases hs'
  exact hs

end Parse

/-- Every table that a source text gives is of this kind. -/
theorem isParsed_of_mem {defaults : TableDefaults} {source : Text} {ss : List Statement} {t : Table}
    (h : parse defaults source = .ok ss) (ht : .createTable t ∈ ss) : t.IsParsed := by
  unfold parse at h
  split at h
  · rename_i ss' d hss
    cases h
    have hall := Parse.yields_statements defaults _ _ d (Cursor.Lexed.ofSource source) hss
    exact hall.1 _ ht t rfl
  · cases h

end SchemaModels.Ddl
