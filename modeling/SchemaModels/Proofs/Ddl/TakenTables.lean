import SchemaModels.Proofs.Ddl.TakenColumns

/-!
# The tokens of a table definition

The reader of a table takes the clause of that name (`takesAt_table`). So the tokens of a statement
that is accepted as a table definition are of the grammar, and what is not dropped of them balances,
with no semicolon but captured ones before the one that ends it (`balanced_of_createTable`). What is
dropped is not looked at, and may be a parenthesis (`unopened_parenthesis_is_accepted`).
-/

namespace SchemaModels.Ddl.Parse

open Computability
open Clause (optional_mul)

variable {c d : Cursor} {defaults : TableDefaults}

/-! ### Constraints -/

theorem takesAt_indexAttribute : TakesAt Grammar.indexAttribute indexAttribute c := by
  refine (accepts_word _).bind (fun _ => takesAt_dropped.bind_pure _) ?_
  refine (accepts_keyword _).bind (fun _ => takesAt_dropped.bind_pure _) ?_
  refine (accepts_word _).bind (fun _ => ?_) ?_
  · exact (accepts_symbol rfl).takesAt.bind fun _ _ => takesAt_dropped.bind_pure _
  refine (accepts_word _).bind (fun _ => ?_) ?_
  · exact takesAt_dropped.bind fun _ _ => takesAt_dropped.bind_pure fun _ => some ()
  · exact (accepts_word _).bind_pure rfl (.pure none)

theorem takesAt_indexAttributes : TakesAt Grammar.indexAttribute∗ indexAttributes c :=
  (takesAt_many fun _ => takesAt_indexAttribute).bind_pure _

theorem takesAt_keyPart : TakesAt Grammar.keyPart keyPart c := by
  have horder (part : Text) (d : Cursor) : TakesAt Grammar.keyOrder
      (do let _ ← acceptWord ["ASC", "DESC"]; return part) d :=
    (accepts_word _).takesAt.bind_pure _
  refine .bind_of_ok (a := decide (c.current.kind = .symbol .leftParen)) rfl ?_
  cases decide (c.current.kind = .symbol .leftParen) with
  | true => exact .inl (takesAt_rawGroup.bind fun part _ => horder part _)
  | false =>
      refine .inr ((takesAt_name _).bind fun part d => ?_)
      rw [optional_mul]
      refine .bind_of_ok rfl (.ite (fun _ => .inl ?_) fun _ => .inr (horder part _))
      exact takesAt_rawGroup.bind fun _ _ => horder part _

theorem takesAt_keyParts : TakesAt Grammar.keyParts keyParts c :=
  takesAt_parenthesized fun _ => takesAt_commaSeparated fun _ => takesAt_keyPart

theorem takesAt_keyOrIndex : TakesAt Grammar.keyOrIndex keyOrIndex c :=
  (accepts_keyword _).bind_pure rfl ((accepts_keyword _).takesAt.bind_pure _)

theorem takesAt_constraintKind :
    TakesAt (Grammar.keywordThen Grammar.kindBehind) constraintKind c := by
  refine takesAt_kind_bind ?_
  split
  · rename_i hk
    exact takesAt_keywordThen hk fun _ => (takesAt_expectKeyword _).bind_pure _
  · rename_i hk
    exact takesAt_keywordThen hk fun _ => takesAt_keyOrIndex.bind_pure _
  · rename_i hk
    exact takesAt_keywordThen hk fun _ => .pure _
  · rename_i hk
    exact takesAt_keywordThen hk fun _ => .pure _
  · rename_i hk
    exact takesAt_keywordThen hk fun _ => takesAt_keyOrIndex.bind_pure _
  · rename_i hk
    exact takesAt_keywordThen hk fun _ => takesAt_keyOrIndex.bind_pure _
  · rename_i hk
    exact takesAt_keywordThen hk fun _ => (takesAt_expectKeyword _).bind_pure _
  · exact takesAt_refuse _

theorem atConstraint_eq (c : Cursor) : atConstraint c =
    .ok (match c.current.kind with
      | .keyword k => k.startsConstraint
      | _ => false) c := by
  refine (AgreesAt.bind_ok kind _ rfl).trans ?_
  cases hk : c.current.kind with
  | _ => rfl

theorem takesAt_constraintName? : TakesAt Grammar.constraintName? constraintName? c := by
  refine (accepts_keyword _).bind (fun d => .bind_of_ok (atConstraint_eq d) ?_) (.pure none)
  refine .ite (fun _ => .inr (.pure none)) fun _ => ?_
  exact .inl ((takesAt_name _).bind_pure _)

theorem takesAt_indexName? (k : ConstraintKind) :
    TakesAt (Grammar.name + 1) (indexName? k) c := by
  refine .ite (fun _ => .inr (.pure none)) fun _ => .bind_of_ok rfl ?_
  refine .ite (fun _ => .inr (.pure none)) fun _ => .bind_of_ok rfl ?_
  refine .ite (fun _ => .inr (.pure none)) fun _ => ?_
  exact .inl ((takesAt_name _).bind_pure _)

theorem takesAt_constraint : TakesAt Grammar.constraint constraint c := by
  refine takesAt_constraintName?.bind fun constraintName _ => .bind_of_ok rfl ?_
  refine .ite (fun _ => .inl (takesAt_check.bind_pure _)) fun _ => .inr ?_
  refine takesAt_constraintKind.bind fun k _ => ?_
  refine (takesAt_indexName? k).bind fun indexName _ => ?_
  refine takesAt_indexAttributes.bind fun _ _ => ?_
  refine takesAt_keyParts.bind fun columns _ => ?_
  have hend (a : Constraint) (d : Cursor) :
      TakesAt Grammar.indexAttribute∗ (do indexAttributes; return a) d :=
    takesAt_indexAttributes.bind_pure _
  rw [optional_mul]
  refine .ite (fun _ => .inl ?_) fun _ => .inr (hend _ _)
  exact takesAt_references.bind fun _ _ => hend _ _

/-! ### Options -/

theorem takesAt_equals : TakesAt Grammar.equals equals c :=
  (accepts_symbol rfl).takesAt.bind_pure _

theorem takesAt_optionValue : TakesAt Grammar.optionValue optionValue c := by
  refine takesAt_kind_bind ?_
  split
  · rename_i s hk
    exact .inl (.inl (.inl ((takesAt_advance (by rw [hk]) rfl).bind_pure _)))
  · rename_i n hk
    exact .inl (.inl (.inr ((takesAt_advance (by rw [hk]) rfl).bind_pure _)))
  · rename_i x hk
    exact .inl (.inl (.inr ((takesAt_advance (by rw [hk]) rfl).bind_pure _)))
  · exact .inl (.inr takesAt_rawGroup)
  · exact .inr (takesAt_name _)

theorem takesAt_wordOption_of_partition {word : Text} (h : Text.upper word = "PARTITION") :
    TakesAt .balanced (wordOption word) c :=
  .ite (fun _ => takesAt_balancedTail.bind_pure _) fun hne => absurd h hne

theorem takesAt_wordOption_of_ne {word : Text} (h : Text.upper word ≠ "PARTITION") :
    TakesAt (Grammar.equals * Grammar.optionValue) (wordOption word) c := by
  refine .ite (fun heq => absurd heq h) fun _ => ?_
  refine takesAt_equals.bind fun _ _ => ?_
  intro a d h
  obtain ⟨value, e, hvalue, hrest⟩ := exists_of_bind_ok h
  split at hrest
  · cases hrest
    exact takesAt_optionValue value _ hvalue
  · cases hrest
    exact takesAt_optionValue value _ hvalue

theorem takesAt_tableOption : TakesAt Grammar.tableOption tableOption c := by
  have hset {α β : Type} {L : Clause} {p : Parse α} (f : α → β) (hp : ∀ d, TakesAt L p d)
      (d : Cursor) : TakesAt (Grammar.equals * L) (do equals; return f (← p)) d :=
    takesAt_equals.bind fun _ _ => (hp _).bind_pure f
  refine (accepts_symbol rfl).takesAt.bind fun _ d => ?_
  refine takesAt_kind_bind ?_
  split
  · exact .inr (.pure none)
  · exact .inr (.pure none)
  · rename_i hk
    exact .inl (.inl (.inl (takesAt_keywordThen hk fun _ => .pure _)))
  · rename_i hk
    refine .inl (.inl (.inl (takesAt_keywordThen hk fun _ => ?_)))
    exact (takesAt_expectKeyword _).bind fun _ _ => hset _ (fun _ => takesAt_name _) _
  · rename_i hk
    refine .inl (.inl (.inl (takesAt_keywordThen hk fun _ => ?_)))
    exact hset _ (fun _ => takesAt_name _) _
  · rename_i hk
    refine .inl (.inl (.inl (takesAt_keywordThen hk fun _ => ?_)))
    exact hset _ (fun _ => takesAt_name _) _
  · rename_i hk
    refine .inl (.inl (.inl (takesAt_keywordThen hk fun _ => ?_)))
    exact hset _ (fun _ => takesAt_string) _
  · rename_i hk
    refine .inl (.inl (.inl (takesAt_keywordThen hk fun _ => ?_)))
    exact hset _ (fun _ => takesAt_integer) _
  · rename_i word hk
    by_cases hword : Text.upper word = "PARTITION"
    · have hsame : isWord ["PARTITION"] (.identifier word) = true :=
        List.any_eq_true.2 ⟨_, List.mem_singleton.2 rfl, decide_eq_true (hword.trans (by decide))⟩
      have hpartition : TakesAt (Grammar.word ["PARTITION"]) advance d :=
        takesAt_advance (hk ▸ hsame) rfl
      refine .inl (.inl (.inr (hpartition.bind fun _ _ => ?_)))
      exact (takesAt_wordOption_of_partition hword).bind_pure _
    · have hother : TakesAt Grammar.identifier advance d := takesAt_advance (by rw [hk]) rfl
      refine .inl (.inr (hother.bind fun _ _ => ?_))
      exact (takesAt_wordOption_of_ne hword).bind_pure _
  · exact takesAt_refuse _

theorem takesAt_tableOptions : TakesAt Grammar.tableOption∗ tableOptions c :=
  (takesAt_many fun _ => takesAt_tableOption).bind_pure _

/-! ### Definition -/

theorem takesAt_ifNotExists : TakesAt Grammar.ifNotExists ifNotExists c := by
  refine (accepts_keyword _).bind (fun _ => ?_) (.pure false)
  exact (takesAt_expectKeyword _).bind fun _ _ => (takesAt_expectKeyword _).bind_pure _

theorem takesAt_qualifiedName : TakesAt Grammar.qualifiedName qualifiedName c := by
  refine (takesAt_name _).bind fun first _ => ?_
  exact (accepts_symbol rfl).bind (fun _ => (takesAt_name _).bind_pure _) (.pure _)

theorem takesAt_tableEntry :
    TakesAt (Grammar.constraint + Grammar.column) tableEntry c := by
  refine .bind_of_ok (atConstraint_eq c) ?_
  refine .ite (fun _ => .inl ?_) fun _ => .inr ?_
  · exact takesAt_constraint.bind_pure _
  · exact takesAt_column.bind_pure _

theorem takesAt_entries : TakesAt Grammar.entries (parenthesized (commaSeparated tableEntry)) c :=
  takesAt_parenthesized fun _ => takesAt_commaSeparated fun _ => takesAt_tableEntry

theorem takesAt_table (defaults : TableDefaults) : TakesAt Grammar.table (table defaults) c := by
  refine (accepts_keyword _).takesAt.bind fun temporary _ => ?_
  refine (takesAt_expectKeyword _).bind fun _ _ => ?_
  refine takesAt_ifNotExists.bind fun ifNotExists _ => ?_
  refine takesAt_qualifiedName.bind fun names d => .bind_of_ok rfl ?_
  refine .ite (fun _ => nofun) fun _ => ?_
  exact takesAt_entries.bind fun _ _ => takesAt_tableOptions.bind_pure _

/-! ### Statements -/

/-- What ends a statement: a semicolon, or nothing where the text ends. -/
def IsEnding (ending : List Token) (d : Cursor) : Prop :=
  (∃ t, ending = [t] ∧ t.kind = .symbol .semicolon) ∨ ending = [] ∧ d.current.kind = .eof

theorem exists_of_statementEnd (h : statementEnd c = .ok () d) :
    ∃ ending, c.ahead = ending ++ d.ahead ∧ IsEnding ending d := by
  rw [statementEnd_eq] at h
  split at h
  · rename_i hsemicolon
    cases h
    have hne : c.ahead ≠ [] := Cursor.ahead_ne_nil (by rw [hsemicolon]; exact nofun)
    exact ⟨[c.current], Cursor.ahead_eq_cons hne, .inl ⟨_, rfl, hsemicolon⟩⟩
  · split at h
    · rename_i heof
      cases h
      exact ⟨[], rfl, .inr ⟨rfl, heof⟩⟩
    · cases h

theorem IsEnding.balanced {ending : List Token} (h : IsEnding ending d) : Balanced ending := by
  obtain ⟨t, rfl, ht⟩ | ⟨rfl, -⟩ := h
  · rw [Balanced, depthAfter_cons, if_neg (by simp [ht]), if_neg (by simp [ht])]
    rfl
  · exact .nil

theorem otherStatement_ne_createTable (t : Table) : otherStatement c ≠ .ok (.createTable t) d := by
  intro h
  obtain ⟨_, e, -, h⟩ := exists_of_bind_ok (p := skipStatement) h
  obtain ⟨_, e', -, h⟩ := exists_of_bind_ok (p := acceptSymbol .semicolon) h
  cases h

theorem exists_of_tableAndEnd {t : Table}
    (h : (do let t ← table defaults; statementEnd; return .createTable t : Parse Statement) c =
      .ok (.createTable t) d) : ∃ ws ∈ Grammar.table,
        ∃ ending, c.ahead = tokensOf ws ++ ending ++ d.ahead ∧ IsEnding ending d := by
  obtain ⟨t', e, htable, h⟩ := exists_of_bind_ok h
  obtain ⟨_, e', hend, h⟩ := exists_of_bind_ok (p := statementEnd) h
  cases h
  obtain ⟨ws, hws, hahead⟩ := takesAt_table defaults t e htable
  obtain ⟨ending, hahead', hending⟩ := exists_of_statementEnd hend
  exact ⟨ws, hws, ending, by rw [hahead, hahead', List.append_assoc], hending⟩

theorem exists_of_createStatement {t : Table}
    (h : createStatement defaults c = .ok (.createTable t) d) : ∃ ws ∈ Grammar.table,
      ∃ ending, c.ahead = tokensOf ws ++ ending ++ d.ahead ∧ IsEnding ending d := by
  obtain ⟨k, c', hkind, h⟩ := exists_of_bind_ok (p := kind) h
  cases hkind
  split at h
  · exact exists_of_tableAndEnd h
  · exact exists_of_tableAndEnd h
  · exact absurd h (otherStatement_ne_createTable t)

/-- A statement that defines a table is the word `CREATE`, the definition and what ends it. -/
theorem exists_of_createTable {t : Table} (h : statement defaults c = .ok (.createTable t) d) :
    ∃ ws ∈ Grammar.createTable, ∃ ending, c.ahead = tokensOf ws ++ ending ++ d.ahead ∧
      IsEnding ending d := by
  obtain ⟨hpresent, hadvance⟩ | habsent := accepts_keyword .create c
  · have hstatement : statement defaults c = createStatement defaults c.advance :=
      AgreesAt.bind_ok (acceptKeyword .create) _ hpresent
    rw [hstatement] at h
    obtain ⟨ws, hws, hahead⟩ := hadvance () c.advance rfl
    obtain ⟨ws', hws', ending, hahead', hending⟩ := exists_of_createStatement h
    refine ⟨ws ++ ws', Language.append_mem_mul hws hws', ending, ?_, hending⟩
    rw [hahead, hahead', tokensOf_append]
    simp only [List.append_assoc]
  · have hstatement : statement defaults c = otherStatement c :=
      AgreesAt.bind_ok (acceptKeyword .create) _ habsent
    rw [hstatement] at h
    exact absurd h (otherStatement_ne_createTable t)

/-- Of the tokens of an accepted table definition, those that are not dropped balance. All of them
balance, and every semicolon before the last token is captured, unless a parenthesis or a semicolon
is dropped. -/
theorem balanced_of_createTable {t : Table} (h : statement defaults c = .ok (.createTable t) d) :
    ∃ ws ∈ Grammar.createTable, ∃ ending, c.ahead = tokensOf ws ++ ending ++ d.ahead ∧
      IsEnding ending d ∧ Balanced (keptTokens ws) ∧
      (∀ w ∈ ws, w.token.kind = .symbol .semicolon → w.role ≠ .read) ∧
      ((∀ w ∈ ws, w.role = .dropped → isDelimiter w.token.kind = false) →
        Balanced (tokensOf ws ++ ending) ∧
          ∀ w ∈ ws, w.token.kind = .symbol .semicolon → w.role = .captured) := by
  obtain ⟨ws, hws, ending, hahead, hending⟩ := exists_of_createTable h
  obtain ⟨hbalanced, hread⟩ := Grammar.createTable.sound ws hws
  have hsemicolon (w : TakenToken) (hw : w ∈ ws) (hkind : w.token.kind = .symbol .semicolon) :
      w.role ≠ .read := fun hrole => hread w hw hrole hkind
  refine ⟨ws, hws, ending, hahead, hending, hbalanced, hsemicolon, fun hdropped => ⟨?_, ?_⟩⟩
  · refine Balanced.append ?_ hending.balanced
    rw [Balanced, ← depthAfter_kept hdropped]
    exact hbalanced
  · intro w hw hkind
    cases hrole : w.role with
    | read => exact absurd hrole (hsemicolon w hw hkind)
    | captured => rfl
    | dropped =>
        have hplain := hdropped w hw hrole
        rw [hkind] at hplain
        cases hplain

/-- What a reader gives can be decided. -/
instance decidableEqResult {ε σ α : Type} [DecidableEq ε] [DecidableEq σ] [DecidableEq α] :
    DecidableEq (EStateM.Result ε σ α)
  | .ok a s, .ok b t => decidable_of_iff (a = b ∧ s = t) (EStateM.Result.ok.injEq a s b t ▸ Iff.rfl)
  | .error e s, .error f t =>
    decidable_of_iff (e = f ∧ s = t) (EStateM.Result.error.injEq e s f t ▸ Iff.rfl)
  | .ok _ _, .error _ _ => .isFalse nofun
  | .error _ _, .ok _ _ => .isFalse nofun

/-- A number is dropped, and a semicolon is captured. -/
theorem balanced_of_pointsTable :
    statement {} (.ofSource "CREATE TABLE t (a INT SRID 4326 DEFAULT (1;2));") =
        .ok (.createTable { name := "t", columns := [⟨"a", { dataType := .sized .int none },
          [.default (.raw "(1;2)")]⟩] }) ⟨"CREATE TABLE t (a INT SRID 4326 DEFAULT (1;2));", []⟩ ∧
      ∃ ws ∈ Grammar.createTable, ∃ ending,
        (Cursor.ofSource "CREATE TABLE t (a INT SRID 4326 DEFAULT (1;2));").ahead =
          tokensOf ws ++ ending ++ [] ∧
        IsEnding ending ⟨"CREATE TABLE t (a INT SRID 4326 DEFAULT (1;2));", []⟩ ∧
        Balanced (keptTokens ws) ∧
        (∀ w ∈ ws, w.token.kind = .symbol .semicolon → w.role ≠ .read) ∧
        ((∀ w ∈ ws, w.role = .dropped → isDelimiter w.token.kind = false) →
          Balanced (tokensOf ws ++ ending) ∧
            ∀ w ∈ ws, w.token.kind = .symbol .semicolon → w.role = .captured) := by
  have h : statement {} (.ofSource "CREATE TABLE t (a INT SRID 4326 DEFAULT (1;2));") =
      .ok (.createTable { name := "t", columns := [⟨"a", { dataType := .sized .int none },
        [.default (.raw "(1;2)")]⟩] }) ⟨"CREATE TABLE t (a INT SRID 4326 DEFAULT (1;2));", []⟩ := by
    decide +kernel
  exact ⟨h, balanced_of_createTable h⟩

/-- Behind `SET` a parenthesis that closes nothing is dropped, and the table is accepted. -/
theorem unopened_parenthesis_is_accepted :
    statement {} (.ofSource "CREATE TABLE t (a INT REFERENCES u ON DELETE SET ))") =
        .ok (.createTable { name := "t", columns := [⟨"a", { dataType := .sized .int none },
            [.references "REFERENCES u ON DELETE SET )"]⟩] })
          ⟨"CREATE TABLE t (a INT REFERENCES u ON DELETE SET ))", []⟩ ∧
      ¬ Balanced (Cursor.ofSource "CREATE TABLE t (a INT REFERENCES u ON DELETE SET ))").ahead := by
  constructor <;> decide +kernel

end SchemaModels.Ddl.Parse
