import SchemaModels.Proofs.Ddl.CanonicalColumns
import SchemaModels.Proofs.Ddl.CanonicalLexemes
import SchemaModels.Proofs.Ddl.StatementRuns

/-!
# Reading canonical tables

A source text whose tokens are those of a canonical table gives that table and nothing else,
whatever blanks and comments stand between the tokens (`parse_of_kinds`). The canonical text is such
a text.
-/

namespace SchemaModels.Ddl

namespace Parse

/-! ### Constraints -/

def IsSymbol (k : TokenKind) : Prop := ∃ s, k = .symbol s

theorem parses_no_indexAttribute : Parses indexAttribute [] none IsSymbol := by
  have hword (words : List Text) (k : TokenKind) (hk : IsSymbol k) : isWord words k = false := by
    obtain ⟨s, rfl⟩ := hk
    rfl
  refine (parses_acceptWord_of_not _).look ?_ (hword _)
  refine (parses_accept_of_ne (.keyword .comment)).look ?_ fun
    | _, ⟨_, rfl⟩ => nofun
  refine (parses_acceptWord_of_not _).look ?_ (hword _)
  refine (parses_acceptWord_of_not _).look ?_ (hword _)
  exact (parses_acceptWord_of_not _).look (.pure none) (hword _)

theorem parses_no_indexAttributes : Parses indexAttributes [] () IsSymbol :=
  (parses_many_of_none parses_no_indexAttribute).bind_pure fun _ => ()

theorem parses_keyPart (n : Text) : Parses keyPart [.identifier n] n EndsEntry := by
  have hnot (k : TokenKind) (hk : EndsEntry k) :
      k ≠ .symbol .leftParen ∧ isWord ["ASC", "DESC"] k = false := by
    rcases hk with rfl | rfl
    · exact ⟨nofun, rfl⟩
    · exact ⟨nofun, rfl⟩
  refine (parses_at_of_ne (.symbol .leftParen)).look ?_ fun _ _ => nofun
  refine (parses_name n .keyColumn).cons ?_
  refine (parses_at_of_ne (.symbol .leftParen)).look ?_ fun k hk => (hnot k hk).1
  exact ((parses_acceptWord_of_not _).bind_pure fun _ => n).mono fun k hk => (hnot k hk).2

theorem parses_keyParts {ns : List Text} (h : ns ≠ []) :
    Parses keyParts (groupKinds (ns.map fun n => [.identifier n])) ns Any :=
  parses_group (fun n => [.identifier n]) h fun n _ => parses_keyPart n

theorem parses_indexName? {kind : ConstraintKind} :
    Parses (indexName? kind) [] none (· = .symbol .leftParen) := by
  unfold indexName?
  split
  · exact .pure none
  · exact (parses_at (.symbol .leftParen)).look (.pure none) fun _ => id

/-- A key without a name, given how its words are read. -/
theorem parses_key {kind : ConstraintKind} {w : Keyword} {ns : List Text}
    (hkind : Parses constraintKind [.keyword w, .keyword .key] kind Any)
    (hw : w ≠ .constraint ∧ w ≠ .check) (hforeign : kind ≠ .foreignKey) (hns : ns ≠ []) :
    Parses constraint (.keyword w :: .keyword .key :: groupKinds (ns.map fun n => [.identifier n]))
      ⟨kind, none, ns⟩ EndsEntry := by
  have hattributes : Parses indexAttributes [] () EndsEntry :=
    parses_no_indexAttributes.mono fun k hk => by
      rcases hk with rfl | rfl
      · exact ⟨_, rfl⟩
      · exact ⟨_, rfl⟩
  have hname : Parses constraintName? [] none (· ≠ .keyword .constraint) :=
    (parses_accept_of_ne (.keyword .constraint)).look (.pure none) fun _ => id
  refine hname.look ?_ fun _ _ h => hw.1 (TokenKind.keyword.inj h)
  refine (parses_at_of_ne (.keyword .check)).look ?_ fun _ _ h => hw.2 (TokenKind.keyword.inj h)
  change Parses _ ([.keyword w, .keyword .key] ++ _) _ _
  refine hkind.append ?_ fun _ _ => trivial
  refine parses_indexName?.look ?_ fun _ _ => rfl
  refine parses_no_indexAttributes.look ?_ fun _ _ => ⟨_, rfl⟩
  refine (parses_keyParts hns).last ?_ fun _ _ => trivial
  dsimp only
  rw [if_neg hforeign]
  exact hattributes.bind_pure fun _ => _

theorem parses_constraint {k : Constraint} (h : k.IsCanonical) :
    Parses constraint k.kinds k EndsEntry := by
  obtain ⟨kind, name, columns⟩ := k
  cases h.name
  rcases h.kind with rfl | rfl
  · refine parses_key (w := .primary) ?_ (by decide) (by decide) h.columns
    exact parses_kind_bind (parses_advance.cons ((parses_expectKeyword .key).cons (.pure _)))
  · refine parses_key (w := .unique) ?_ (by decide) (by decide) h.columns
    have hkey : Parses keyOrIndex [.keyword .key] () Any :=
      (parses_accept (.keyword .key)).cons (.pure ())
    exact parses_kind_bind (parses_advance.cons (hkey.cons (.pure _)))

/-! ### Entries -/

theorem parses_atConstraint {k : TokenKind} {b : Bool}
    (h : (match k with
      | .keyword w => w.startsConstraint
      | _ => false) = b) : Parses atConstraint [] b (· = k) := by
  refine parses_kind_look fun k' hk => ?_
  cases hk
  cases h
  cases k <;> rfl

theorem parses_tableEntry {t : Table} (h : t.IsCanonical) {e : TableEntry} (he : e ∈ t.entries) :
    Parses tableEntry e.kinds e EndsEntry := by
  rcases List.mem_append.1 he with he | he
  · obtain ⟨c, hc, rfl⟩ := List.mem_map.1 he
    have hcolumn := (parses_column (h.columns c hc)).bind_pure fun c => TableEntry.column c
    exact (parses_atConstraint (k := .identifier c.name) rfl).look hcolumn fun _ _ => rfl
  · obtain ⟨k, hk, rfl⟩ := List.mem_map.1 he
    have hconstraint :=
      (parses_constraint (h.constraints k hk)).bind_pure fun k => TableEntry.constraint k
    have hstarts : (if k.kind = .primaryKey then Keyword.primary else .unique).startsConstraint =
        true := by
      split
      · rfl
      · rfl
    exact (parses_atConstraint (k := .keyword _) hstarts).look hconstraint fun _ _ => rfl

theorem entries_ne_nil {t : Table} (h : t.IsCanonical) : t.entries ≠ [] := by
  have hcolumns := h.columns_ne_nil
  simp [Table.entries, hcolumns]

theorem parses_entries {t : Table} (h : t.IsCanonical) :
    Parses (parenthesized (commaSeparated tableEntry)) (groupKinds (t.entries.map (·.kinds)))
      t.entries Any :=
  parses_group TableEntry.kinds (entries_ne_nil h) fun _ he => parses_tableEntry h he

theorem columnsOf_entries (t : Table) : columnsOf t.entries = t.columns := by
  have hcolumns : columnsOf (t.columns.map .column) = t.columns := by
    induction t.columns with
    | nil => rfl
    | cons c cs ih => exact congrArg (c :: ·) ih
  have hconstraints : columnsOf (t.constraints.map .constraint) = [] := by
    induction t.constraints with
    | nil => rfl
    | cons k ks ih => exact ih
  rw [columnsOf] at hcolumns hconstraints ⊢
  rw [Table.entries, List.filterMap_append, hcolumns, hconstraints, List.append_nil]

theorem constraintsOf_entries (t : Table) : constraintsOf t.entries = t.constraints := by
  have hcolumns : constraintsOf (t.columns.map .column) = [] := by
    induction t.columns with
    | nil => rfl
    | cons c cs ih => exact ih
  have hconstraints : constraintsOf (t.constraints.map .constraint) = t.constraints := by
    induction t.constraints with
    | nil => rfl
    | cons k ks ih => exact congrArg (k :: ·) ih
  rw [constraintsOf] at hcolumns hconstraints ⊢
  rw [Table.entries, List.filterMap_append, hcolumns, hconstraints, List.nil_append]

/-! ### Tables -/

theorem parses_tableOption (s : Text) :
    Parses tableOption (TableOption.comment s).kinds (some [.comment s]) Any := by
  refine (parses_accept_of_ne (.symbol .comma)).look ?_ fun _ _ => nofun
  refine parses_kind_bind (parses_advance.cons ?_)
  have hequals : Parses equals [.symbol .equal] () Any :=
    (parses_accept (.symbol .equal)).cons (.pure ())
  exact hequals.cons ((parses_string s).bind_pure fun s => some [TableOption.comment s])

theorem parses_no_tableOption : Parses tableOption [] none (· = .eof) := by
  refine (parses_accept_of_ne (.symbol .comma)).look ?_ fun | _, rfl => nofun
  exact parses_kind_look fun k hk => by rw [hk]

theorem parses_tableOptions {t : Table} (h : t.IsCanonical) :
    Parses tableOptions (t.options.flatMap (·.kinds)) t.options (· = .eof) := by
  rcases h.options with hnone | ⟨s, hsome⟩
  · rw [hnone]
    exact (parses_many_of_none parses_no_tableOption).bind_pure List.flatten
  · rw [hsome]
    have hmany : Parses (many tableOption) ([s].flatMap _) ([s].map _) (· = .eof) :=
      parses_many (fun s => [.comment s]) (fun s => (TableOption.comment s).kinds) Any
        (fun s _ => parses_tableOption s) (fun s _ => ⟨_, _, rfl, trivial⟩) parses_no_tableOption
        fun _ _ => trivial
    exact hmany.bind_pure List.flatten

/-- A table, given how its entries and its options are read. -/
theorem parses_tableOf {n : Text} {ks ls : List TokenKind} {entries : List TableEntry}
    {options : List TableOption} (defaults : TableDefaults)
    (hentries : Parses (parenthesized (commaSeparated tableEntry)) (.symbol .leftParen :: ks)
      entries Any)
    (hoptions : Parses tableOptions ls options (· = .eof)) :
    Parses (table defaults)
      (.keyword .table :: .identifier n :: (.symbol .leftParen :: ks ++ ls))
      { name := n, columns := columnsOf entries, constraints := constraintsOf entries, options
        charset := Ddl.charsetOf options <|> defaults.charset
        collation := Ddl.collationOf options <|> defaults.collation } (· = .eof) := by
  have hexists : Parses ifNotExists [] false (· ≠ .keyword .if) :=
    (parses_accept_of_ne (.keyword .if)).look (.pure false) fun _ => id
  have hname : Parses qualifiedName [.identifier n] (none, n) (· ≠ .symbol .dot) := by
    refine (parses_name n .tableName).cons ?_
    exact (parses_accept_of_ne (.symbol .dot)).look (.pure _) fun _ => id
  have hlike : Parses (atKeyword .like) [] false (· ≠ .keyword .like) := parses_at_of_ne _
  refine (parses_accept_of_ne (.keyword .temporary)).look ?_ fun _ _ => nofun
  refine (parses_expectKeyword .table).cons ?_
  refine hexists.look ?_ fun _ _ => nofun
  change Parses _ ([.identifier n] ++ _) _ _
  refine hname.append ?_ fun _ _ => nofun
  refine hlike.look ?_ fun _ _ => nofun
  refine hentries.append ?_ fun _ _ => trivial
  exact hoptions.bind_pure fun options => _

theorem parses_table {t : Table} (h : t.IsCanonical) :
    Parses (table {}) (.keyword .table :: .identifier t.name ::
      (groupKinds (t.entries.map (·.kinds)) ++ t.options.flatMap (·.kinds))) t (· = .eof) := by
  have htable := parses_tableOf (n := t.name) {} (parses_entries h) (parses_tableOptions h)
  have hrest : charsetOf t.options = none ∧ Ddl.collationOf t.options = none := by
    rcases h.options with hnone | ⟨s, hsome⟩
    · rw [hnone]
      exact ⟨rfl, rfl⟩
    · rw [hsome]
      exact ⟨rfl, rfl⟩
  rw [columnsOf_entries, constraintsOf_entries, hrest.1, hrest.2] at htable
  rw [h.rest_eq]
  exact htable

theorem parses_createTable {defaults : TableDefaults} {t : Table} {ks : List TokenKind}
    (h : Parses (table defaults) (.keyword .table :: ks) t (· = .eof)) :
    Parses (statement defaults) (.keyword .create :: .keyword .table :: ks) (.createTable t)
      (· = .eof) := by
  have hend : Parses statementEnd [] () (· = .eof) := by
    refine (parses_accept_of_ne (.symbol .semicolon)).look ?_ fun | _, rfl => nofun
    exact (parses_at .eof).look (.pure ()) fun _ => id
  have hcreate : Parses (acceptKeyword .create) [.keyword .create] true Any := parses_accept _
  refine hcreate.cons (parses_kind_bind ?_)
  refine h.last ?_ fun _ => id
  exact hend.bind_pure fun _ => Statement.createTable t

end Parse

/-! ### Source texts -/

/-- A text with the tokens of one statement gives that statement, whatever stands between them. -/
theorem parse_of_parses {defaults : TableDefaults} {s : Statement} {source : Text}
    {ks : List TokenKind}
    (h : Parses (Parse.statement defaults) (.keyword .create :: ks) s (· = .eof))
    (hkinds : kindsOf source = .keyword .create :: ks) : parse defaults source = .ok [s] := by
  have hc : (Cursor.ofSource source).Inside := Cursor.inside_ofSource source
  have hcurrent : (Cursor.ofSource source).current.kind = .keyword .create := by
    rw [Cursor.kind_current_eq]
    exact congrArg (List.headD · .eof) hkinds
  have hall : (Cursor.ofSource source).kinds = .keyword .create :: ks ++ [] := by
    rw [List.append_nil]
    exact hkinds
  have hstatement := h _ [] (Cursor.spelt_ofSource source) hall rfl
  have hend := Cursor.kind_current_eq ((Cursor.ofSource source).drop (.keyword .create :: ks).length)
  rw [Cursor.kinds_drop hall] at hend
  have hstatements := Parse.statements_of_ok hc (by rw [hcurrent]; exact nofun)
    (by rw [hcurrent]; exact nofun) hstatement
  rw [Parse.statements_of_eof hend] at hstatements
  unfold parse
  rw [hstatements]
  rfl

/-- A text with the tokens of a canonical table gives that table, whatever stands between them. -/
theorem parse_of_kinds {t : Table} {source : Text} (h : t.IsCanonical)
    (hkinds : kindsOf source = t.kinds) : parse {} source = .ok [.createTable t] :=
  parse_of_parses (Parse.parses_createTable (Parse.parses_table h)) hkinds

/-- The canonical text of a table gives that table and nothing else, whatever its names and strings
are. -/
theorem parse_canonicalText {t : Table} (h : t.IsCanonical) :
    parse {} t.canonicalText = .ok [.createTable t] :=
  parse_of_kinds h (kindsOf_canonicalText h)

/-- Names and strings that spell keywords or hold quotes, and options that begin one another. -/
def keywordTable : Table where
  name := "ta`ble"
  columns := [
    ⟨"null", { dataType := .sized .bigint (some 20), zerofill := true },
      [.notNull, .autoIncrement, .primaryKey]⟩,
    ⟨"key", { dataType := .enum ["it's", "\\"] },
      [.default (.literal .null), .null, .uniqueKey, .comment "'"]⟩,
    ⟨"", { dataType := .precise .decimal (some 10) (some 2), unsigned := true },
      [.default (.literal (.integer (-5))), .default (.literal (.string "primary"))]⟩]
  constraints := [⟨.primaryKey, none, ["null", "key"]⟩, ⟨.unique, none, [""]⟩]
  options := [.comment "\\'"]

theorem parse_canonicalText_of_keywordTable :
    keywordTable.IsCanonical ∧
    keywordTable.canonicalText =
      "CREATE TABLE `ta``ble` ( " ++
      "`null` bigint(20) zerofill NOT NULL AUTO_INCREMENT PRIMARY KEY , " ++
      "`key` enum('it''s','\\\\') DEFAULT NULL NULL UNIQUE KEY COMMENT '''' , " ++
      "`` decimal(10,2) unsigned DEFAULT - 5 DEFAULT 'primary' , " ++
      "PRIMARY KEY ( `null` , `key` ) , UNIQUE KEY ( `` ) ) COMMENT = '\\\\'''" ∧
    parse {} keywordTable.canonicalText = .ok [.createTable keywordTable] := by
  have hcolumns : ∀ c ∈ keywordTable.columns, c.IsCanonical := by
    intro c hc
    rcases List.mem_cons.1 hc with rfl | hc
    · exact ⟨trivial, rfl, rfl, by simp [ColumnOption.IsCanonical]⟩
    rcases List.mem_cons.1 hc with rfl | hc
    · exact ⟨nofun, rfl, rfl, by simp [ColumnOption.IsCanonical, Literal.IsCanonical]⟩
    rcases List.mem_singleton.1 hc with rfl
    exact ⟨fun _ => rfl, rfl, rfl, by simp [ColumnOption.IsCanonical, Literal.IsCanonical]⟩
  have hconstraints : ∀ k ∈ keywordTable.constraints, k.IsCanonical := by
    intro k hk
    rcases List.mem_cons.1 hk with rfl | hk
    · exact ⟨Or.inl rfl, rfl, nofun⟩
    rcases List.mem_singleton.1 hk with rfl
    exact ⟨Or.inr rfl, rfl, nofun⟩
  have hcanonical : keywordTable.IsCanonical :=
    ⟨nofun, hcolumns, hconstraints, Or.inr ⟨_, rfl⟩, rfl⟩
  exact ⟨hcanonical, by decide +kernel, parse_canonicalText hcanonical⟩

end SchemaModels.Ddl
