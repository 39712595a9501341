import SchemaModels.Ddl.Table.Parser
import SchemaModels.Proofs.Ddl.ColumnAgreement

/-!
# Agreement of table definitions

Constraints stand between the parentheses of a table and are read as columns are. The options behind
them run up to the end of the statement, which is a semicolon or the end of the text; both mean the
same to their reader.
-/

namespace SchemaModels.Ddl.Parse

open AgreesAt (bind_ok)

variable {w : Surroundings} {blind : Bool} {c : Cursor}

/-! ### Constraints -/

theorem agreesAt_indexAttribute : AgreesAt w true indexAttribute indexAttribute c := by
  refine (agreesAt_acceptWord _).bind fun _ _ _ => .ite ?_ ?_
  · exact agreesAt_advance_blind.bind fun _ _ _ => .pure _
  refine (agreesAt_acceptKeyword _).bind fun _ _ _ => .ite ?_ ?_
  · exact agreesAt_advance_blind.bind fun _ _ _ => .pure _
  refine (agreesAt_acceptWord _).bind fun _ _ _ => .ite ?_ ?_
  · refine (agreesAt_acceptSymbol (Or.inr (by decide))).bind fun _ _ _ => ?_
    exact agreesAt_advance_blind.bind fun _ _ _ => .pure _
  refine (agreesAt_acceptWord _).bind fun _ _ _ => .ite ?_ ?_
  · exact (agreesAt_skip 2).bind fun _ _ _ => .pure _
  · exact (agreesAt_acceptWord _).bind fun _ _ _ => .ite (.pure _) (.pure none)

theorem agreesAt_indexAttributes : AgreesAt w true indexAttributes indexAttributes c :=
  (agreesAt_many fun _ _ => agreesAt_indexAttribute).bind fun _ _ _ => .pure _

theorem agreesAt_keyPart : AgreesAt w true keyPart keyPart c := by
  refine (agreesAt_atSymbol (by decide)).bind fun isExpr _ _ => ?_
  have horder (part : Text) (d : Cursor) :
      AgreesAt w true (do let _ ← acceptWord ["ASC", "DESC"]; return part)
        (do let _ ← acceptWord ["ASC", "DESC"]; return part) d :=
    (agreesAt_acceptWord _).bind fun _ _ _ => .pure part
  cases isExpr with
  | true => exact agreesAt_rawGroup.bind fun part _ _ => horder part _
  | false =>
      refine (agreesAt_name _).bind fun part _ _ => ?_
      refine (agreesAt_atSymbol (by decide)).bind fun _ _ _ => .ite ?_ (horder part _)
      exact agreesAt_rawGroup.bind fun _ _ _ => horder part _

theorem agreesAt_keyParts : AgreesAt w blind keyParts keyParts c :=
  agreesAt_parenthesized fun _ _ => agreesAt_commaSeparated fun _ _ => agreesAt_keyPart

theorem agreesAt_keyOrIndex : AgreesAt w blind keyOrIndex keyOrIndex c := by
  refine (agreesAt_acceptKeyword _).bind fun _ _ _ => .ite (.pure _) ?_
  exact (agreesAt_acceptKeyword _).bind fun _ _ _ => .pure _

theorem agreesAt_constraintKind : AgreesAt w true constraintKind constraintKind c := by
  refine agreesAt_kind.bind fun k d _ => ?_
  split
  · refine agreesAt_advance_blind.bind fun _ _ _ => ?_
    exact (agreesAt_expectKeyword _).bind fun _ _ _ => .pure _
  · refine agreesAt_advance_blind.bind fun _ _ _ => ?_
    exact agreesAt_keyOrIndex.bind fun _ _ _ => .pure _
  · exact agreesAt_advance_blind.bind fun _ _ _ => .pure _
  · exact agreesAt_advance_blind.bind fun _ _ _ => .pure _
  · refine agreesAt_advance_blind.bind fun _ _ _ => ?_
    exact agreesAt_keyOrIndex.bind fun _ _ _ => .pure _
  · refine agreesAt_advance_blind.bind fun _ _ _ => ?_
    exact agreesAt_keyOrIndex.bind fun _ _ _ => .pure _
  · refine agreesAt_advance_blind.bind fun _ _ _ => ?_
    exact (agreesAt_expectKeyword _).bind fun _ _ _ => .pure _
  · exact agreesAt_refuse _

theorem agreesAt_atConstraint : AgreesAt w true atConstraint atConstraint c := by
  refine agreesAt_kind.bind fun k d _ => ?_
  split
  · exact .pure _
  · exact .pure _

theorem agreesAt_constraintName? : AgreesAt w true constraintName? constraintName? c := by
  refine (agreesAt_acceptKeyword _).bind fun _ _ _ => .ite ?_ (.pure none)
  refine agreesAt_atConstraint.bind fun _ _ _ => .ite (.pure none) ?_
  exact (agreesAt_name _).bind fun _ _ _ => .pure _

theorem agreesAt_indexName? (k : ConstraintKind) :
    AgreesAt w true (indexName? k) (indexName? k) c := by
  refine .ite (.pure none) ?_
  refine (agreesAt_atSymbol (by decide)).bind fun _ _ _ => .ite (.pure none) ?_
  refine (agreesAt_atWord _).bind fun _ _ _ => .ite (.pure none) ?_
  exact (agreesAt_name _).bind fun _ _ _ => .pure _

theorem agreesAt_constraint : AgreesAt w true constraint constraint c := by
  refine agreesAt_constraintName?.bind fun constraintName _ _ => ?_
  refine (agreesAt_atKeyword _).bind fun _ _ _ => .ite ?_ ?_
  · exact agreesAt_check.bind fun _ _ _ => .pure _
  refine agreesAt_constraintKind.bind fun k _ _ => ?_
  refine (agreesAt_indexName? k).bind fun indexName _ _ => ?_
  refine agreesAt_indexAttributes.bind fun _ _ _ => ?_
  refine agreesAt_keyParts.bind fun columns _ _ => ?_
  have hend (a : Constraint) (d : Cursor) :
      AgreesAt w true (do indexAttributes; return a) (do indexAttributes; return a) d :=
    agreesAt_indexAttributes.bind fun _ _ _ => .pure a
  refine .ite ?_ (hend _ _)
  exact agreesAt_references.bind fun _ _ _ => hend _ _

/-! ### Options -/

theorem agreesAt_equals : AgreesAt w blind equals equals c :=
  (agreesAt_acceptSymbol (Or.inr (by decide))).bind fun _ _ _ => .pure ()

theorem name_of_nil (h : c.ahead = []) (expected : Expected) :
    name expected c = refuse expected c := by
  have hname : name? c = .ok none c := by
    unfold name?
    rw [Cursor.kind_current_of_nil h]
  exact bind_ok _ _ hname

theorem agreesAt_optionValue : AgreesAt w blind optionValue optionValue c := by
  refine agreesAt_kind_bind ?_ fun hnil a d h => ?_
  · split
    · rename_i s hk
      exact agreesAt_advance_bind hk nofun nofun (.pure _)
    · rename_i n hk
      exact agreesAt_advance_bind hk nofun nofun (.pure _)
    · rename_i x hk
      exact agreesAt_advance_bind hk nofun nofun (.pure _)
    · exact agreesAt_rawGroup
    · exact agreesAt_name _
  · have hname : name .optionValue c = .ok a d := h
    rw [name_of_nil hnil] at hname
    cases hname

theorem agreesAt_wordOption (word : Text) :
    AgreesAt w blind (wordOption word) (wordOption word) c := by
  refine .ite (agreesAt_balancedTail.bind fun _ _ _ => .pure _) ?_
  refine agreesAt_equals.bind fun _ _ _ => ?_
  refine agreesAt_optionValue.bind fun value _ _ => ?_
  exact .ite (.pure _) (.pure _)

theorem agreesAt_tableOption : AgreesAt w blind tableOption tableOption c := by
  refine (agreesAt_acceptSymbol (Or.inr (by decide))).bind fun _ d _ => ?_
  refine agreesAt_kind_bind ?_ fun _ a e h => ?_
  · split
    · exact .pure none
    · exact .pure none
    · rename_i hk
      exact agreesAt_advance_bind hk nofun nofun (.pure _)
    · rename_i hk
      refine agreesAt_advance_bind hk nofun nofun ?_
      refine (agreesAt_expectKeyword _).bind fun _ _ _ => ?_
      refine agreesAt_equals.bind fun _ _ _ => ?_
      exact (agreesAt_name _).bind fun _ _ _ => .pure _
    · rename_i hk
      refine agreesAt_advance_bind hk nofun nofun ?_
      refine agreesAt_equals.bind fun _ _ _ => ?_
      exact (agreesAt_name _).bind fun _ _ _ => .pure _
    · rename_i hk
      refine agreesAt_advance_bind hk nofun nofun ?_
      refine agreesAt_equals.bind fun _ _ _ => ?_
      exact (agreesAt_name _).bind fun _ _ _ => .pure _
    · rename_i hk
      refine agreesAt_advance_bind hk nofun nofun ?_
      refine agreesAt_equals.bind fun _ _ _ => ?_
      exact agreesAt_string.bind fun _ _ _ => .pure _
    · rename_i hk
      refine agreesAt_advance_bind hk nofun nofun ?_
      refine agreesAt_equals.bind fun _ _ _ => ?_
      exact agreesAt_integer.bind fun _ _ _ => .pure _
    · rename_i word hk
      refine agreesAt_advance_bind hk nofun nofun ?_
      exact (agreesAt_wordOption word).bind fun _ _ _ => .pure _
    · exact agreesAt_refuse _
  · cases h
    rfl

theorem agreesAt_tableOptions : AgreesAt w blind tableOptions tableOptions c :=
  (agreesAt_many fun _ _ => agreesAt_tableOption).bind fun _ _ _ => .pure _

/-! ### Definition -/

theorem agreesAt_ifNotExists : AgreesAt w blind ifNotExists ifNotExists c := by
  refine (agreesAt_acceptKeyword _).bind fun _ _ _ => .ite ?_ (.pure false)
  refine (agreesAt_expectKeyword _).bind fun _ _ _ => ?_
  exact (agreesAt_expectKeyword _).bind fun _ _ _ => .pure true

theorem agreesAt_qualifiedName : AgreesAt w blind qualifiedName qualifiedName c := by
  refine (agreesAt_name _).bind fun first _ _ => ?_
  refine (agreesAt_acceptSymbol (Or.inr (by decide))).bind fun _ _ _ => .ite ?_ (.pure _)
  exact (agreesAt_name _).bind fun _ _ _ => .pure _

theorem agreesAt_tableEntry : AgreesAt w true tableEntry tableEntry c := by
  refine agreesAt_atConstraint.bind fun _ _ _ => .ite ?_ ?_
  · exact agreesAt_constraint.bind fun _ _ _ => .pure _
  · exact agreesAt_column.bind fun _ _ _ => .pure _

theorem agreesAt_entries : AgreesAt w blind (parenthesized (commaSeparated tableEntry))
    (parenthesized (commaSeparated tableEntry)) c :=
  agreesAt_parenthesized fun _ _ => agreesAt_commaSeparated fun _ _ => agreesAt_tableEntry

theorem agreesAt_table (defaults : TableDefaults) :
    AgreesAt w blind (table defaults) (table defaults) c := by
  refine (agreesAt_acceptKeyword _).bind fun temporary _ _ => ?_
  refine (agreesAt_expectKeyword _).bind fun _ _ _ => ?_
  refine agreesAt_ifNotExists.bind fun ifNotExists _ _ => ?_
  refine agreesAt_qualifiedName.bind fun names _ _ => ?_
  refine (agreesAt_atKeyword _).bind fun _ _ _ => .ite ?_ ?_
  · exact (agreesAt_fail _).bind fun _ _ _ => agreesAt_entries.bind fun _ _ _ =>
      agreesAt_tableOptions.bind fun _ _ _ => .pure _
  · exact agreesAt_entries.bind fun _ _ _ =>
      agreesAt_tableOptions.bind fun _ _ _ => .pure _

end SchemaModels.Ddl.Parse
