import SchemaModels.Ddl.Column.Parser
import SchemaModels.Proofs.Ddl.CanonicalTypes
import SchemaModels.Proofs.Ddl.ColumnAgreement

/-!
# Reading canonical columns

Each option of a canonical column takes exactly its own tokens, because it is as long as its first
keyword says. So `NULL` behind a default value `NULL` is an option of its own.
-/

namespace SchemaModels.Ddl.Parse

/-! ### Options -/

/-- A literal takes its own tokens, whatever follows. -/
theorem parses_exprWith {l : Literal} (h : l.IsCanonical) (argument : Parse Expr) :
    Parses (exprWith argument) l.kinds (.literal l) Any := by
  cases l with
  | integer n =>
      cases n with
      | ofNat n => exact parses_kind_bind (parses_advance.cons (.pure _))
      | negSucc n =>
          refine parses_kind_bind (parses_advance.cons ?_)
          exact parses_kind_bind (parses_advance.cons (.pure _))
  | string s => exact parses_kind_bind (parses_advance.cons (.pure _))
  | boolean b =>
      cases b with
      | true => exact parses_kind_bind (parses_advance.cons (.pure _))
      | false => exact parses_kind_bind (parses_advance.cons (.pure _))
  | null => exact parses_kind_bind (parses_advance.cons (.pure _))
  | float x => exact h.elim
  | blob bs => exact h.elim

theorem parses_expr {l : Literal} (h : l.IsCanonical) : Parses expr l.kinds (.literal l) Any := by
  intro c rest hc hkinds hrest
  rw [expr_eq]
  exact parses_exprWith h _ c rest hc hkinds hrest

theorem parses_columnOption {o : ColumnOption} (h : o.IsCanonical) :
    Parses columnOption o.kinds (some [o]) Any := by
  have hbehind {k : Keyword} {option : Parse ColumnOption} {ks : List TokenKind}
      (hp : Parses option ks o Any) :
      Parses (do advance; return some [← option]) (.keyword k :: ks) (some [o]) Any :=
    parses_advance.cons (hp.bind_pure fun o => some [o])
  cases o with
  | primaryKey => exact parses_kind_bind (hbehind ((parses_expectKeyword .key).cons (.pure _)))
  | notNull => exact parses_kind_bind (hbehind ((parses_expectKeyword .null).cons (.pure _)))
  | null => exact parses_kind_bind (hbehind (.pure _))
  | autoIncrement => exact parses_kind_bind (hbehind (.pure _))
  | uniqueKey => exact parses_kind_bind (hbehind ((parses_accept (.keyword .key)).cons (.pure _)))
  | default e =>
      cases e with
      | literal l =>
          have hvalue := (parses_expr h).bind_pure fun e => ColumnOption.default e
          exact parses_kind_bind (hbehind hvalue)
      | _ => exact h.elim
  | comment s =>
      have hvalue := (parses_string s).bind_pure fun s => ColumnOption.comment s
      exact parses_kind_bind (hbehind hvalue)
  | _ => exact h.elim

/-- Each option begins with its keyword. -/
theorem kinds_option {o : ColumnOption} (h : o.IsCanonical) :
    ∃ k ks, o.kinds = k :: ks ∧ BehindType k := by
  cases o with
  | default e =>
      cases e with
      | literal l => exact ⟨_, _, rfl, by simp [BehindType]⟩
      | _ => exact h.elim
  | onUpdate e => exact h.elim
  | collate n => exact h.elim
  | generated e stored => exact h.elim
  | check e => exact h.elim
  | references s => exact h.elim
  | _ => exact ⟨_, _, rfl, by simp [BehindType]⟩

theorem parses_no_columnOption : Parses columnOption [] none EndsEntry := by
  refine parses_kind_look fun k hk => ?_
  rcases hk with rfl | rfl
  · rfl
  · rfl

theorem parses_options {os : List ColumnOption} (h : ∀ o ∈ os, o.IsCanonical) :
    Parses (many columnOption) (os.flatMap (·.kinds)) (os.map fun o => [o]) EndsEntry := by
  refine parses_many (fun o => [o]) ColumnOption.kinds Any
    (fun o ho => parses_columnOption (h o ho)) (fun o ho => ?_) parses_no_columnOption
    fun _ _ => trivial
  obtain ⟨k, ks, hkinds, -⟩ := kinds_option (h o ho)
  exact ⟨k, ks, hkinds, trivial⟩

theorem collationOf_eq_none {os : List ColumnOption} (h : ∀ o ∈ os, o.IsCanonical) :
    collationOf os = none := by
  unfold collationOf
  rw [List.getLast?_eq_none_iff, List.filterMap_eq_nil_iff]
  intro o ho
  cases o with
  | collate n => exact (h _ ho).elim
  | _ => rfl

/-! ### Columns -/

/-- A column, given how its type is read. -/
theorem parses_columnOf {c : Column} {ks : List TokenKind}
    (htype : Parses fieldType ks c.type BehindType) (hcollation : c.type.collation = none)
    (h : ∀ o ∈ c.options, o.IsCanonical) :
    Parses column (.identifier c.name :: (ks ++ c.options.flatMap (·.kinds))) c EndsEntry := by
  have hoptions := (parses_options h).bind_pure fun os =>
    (⟨c.name, { c.type with collation := collationOf os.flatten }, os.flatten⟩ : Column)
  have hflatten : (c.options.map fun o => [o]).flatten = c.options :=
    List.flatMap_singleton' c.options
  rw [hflatten, collationOf_eq_none h, ← hcollation] at hoptions
  refine (parses_name c.name .columnName).cons ?_
  refine htype.append hoptions fun k hk => ?_
  rcases hos : c.options with _ | ⟨o, os⟩
  · rcases hk with rfl | rfl
    · simp [BehindType]
    · simp [BehindType]
  · obtain ⟨k', ks, hkinds, hbehind⟩ := kinds_option (h o (hos ▸ List.mem_cons_self))
    rw [List.flatMap_cons, hkinds]
    exact hbehind

theorem parses_column {c : Column} (h : c.IsCanonical) : Parses column c.kinds c EndsEntry :=
  parses_columnOf (parses_fieldType h.dataType h.charset h.collation) h.collation h.options

end SchemaModels.Ddl.Parse
