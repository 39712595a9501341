import SchemaModels.Proofs.Ddl.CanonicalTables
import SchemaModels.Proofs.Ddl.ParsedTables

/-!
# Texts of one column

What a definition of a column is read as can be said of a table that has no other column
(`parse_singleColumn`). The definition is given by the tokens that it spells and by the column that
these are read as; options of the table may stand behind it. The other way round, the type of the
only column of a table has been read from the tokens behind its name (`exists_dataType_of_parse`).
-/

namespace SchemaModels.Ddl

open Lexer (Detached detached_cons)

/-- A table `t` of one column `c`, with the definition of the column and the table's options. -/
def singleColumnText (definition options : Text) : Text :=
  "CREATE TABLE t (c " ++ definition ++ (')' :: options)

/-- The table `t` of one column, with the charset and the collation that its options declare. -/
def singleColumn (defaults : TableDefaults) (c : Column) (options : List TableOption) : Table where
  name := "t"
  columns := [c]
  options := options
  charset := charsetOf options <|> defaults.charset
  collation := collationOf options <|> defaults.collation

theorem spells_definition {definition : Text} {ks : List TokenKind} (h : Spells definition ks) :
    Spells ("CREATE TABLE t (c " ++ definition) (.keyword .create :: .keyword .table ::
      .identifier "t" :: .symbol .leftParen :: .identifier "c" :: ks) := by
  have hname : Spells (("c" : Text) ++ ' ' :: definition) ([.identifier "c"] ++ ks) :=
    (spells_identifier (by decide) (by decide)).then h
  have hopen := hname.mark (c := '(') (s := .leftParen) (by decide)
  have htable : Spells (("t" : Text) ++ ' ' :: _) ([.identifier "t"] ++ _) :=
    (spells_identifier (by decide) (by decide)).then hopen
  have hcreate := (spells_keyword .create).then ((spells_keyword .table).then htable)
  have htext : "CREATE TABLE t (c ".toList ++ definition = Keyword.create.spelling ++
      ' ' :: (Keyword.table.spelling ++ ' ' :: (("t" : Text) ++ ' ' :: '(' ::
        (("c" : Text) ++ ' ' :: definition))) := rfl
  rw [htext]
  exact hcreate

theorem singleColumnText_append (a b options : Text) : singleColumnText (a ++ b) options =
    ("CREATE TABLE t (c " ++ a) ++ (b ++ ')' :: options) := by
  unfold singleColumnText
  rw [← List.append_assoc, List.append_assoc]

theorem kindsOf_singleColumnText {definition options : Text} {ks : List TokenKind}
    (h : Spells definition ks) : kindsOf (singleColumnText definition options) =
      .keyword .create :: .keyword .table :: .identifier "t" ::
        (.symbol .leftParen :: (.identifier "c" :: (ks ++ [.symbol .rightParen])) ++
          kindsOf options) := by
  have hclose : kindsOf (')' :: options) = .symbol .rightParen :: kindsOf options :=
    kindsOf_symbol (begins_of_not_mem (c := ')') rfl (by decide) options) (by decide) rfl
  have hall := spells_definition h (')' :: options) (detached_cons (by decide) options)
  rw [hclose] at hall
  unfold singleColumnText
  rw [hall]
  simp only [List.cons_append, List.append_assoc, List.nil_append]

theorem parses_singleColumn {c : Column} {options : List TableOption} {ks ls : List TokenKind}
    (defaults : TableDefaults)
    (hcolumn : Parses Parse.column (.identifier "c" :: ks) c Parse.EndsEntry)
    (hoptions : Parses Parse.tableOptions ls options (· = .eof)) :
    Parses (Parse.table defaults) (.keyword .table :: .identifier "t" ::
      (.symbol .leftParen :: (.identifier "c" :: (ks ++ [.symbol .rightParen])) ++ ls))
      (singleColumn defaults c options) (· = .eof) := by
  have hentry : Parses Parse.tableEntry (.identifier "c" :: ks) (.column c) Parse.EndsEntry :=
    (Parse.parses_atConstraint (k := .identifier "c") rfl).look
      (hcolumn.bind_pure fun c => TableEntry.column c) fun _ _ => rfl
  have hentries := Parse.parses_group (fun _ => .identifier "c" :: ks)
    (List.cons_ne_nil (TableEntry.column c) []) fun e he => by
      rw [List.mem_singleton.1 he]
      exact hentry
  exact Parse.parses_tableOf defaults hentries hoptions

/-- A table of one column is read as its column and its options are. -/
theorem parse_singleColumn {definition text : Text} {c : Column} {options : List TableOption}
    {ks ls : List TokenKind} (defaults : TableDefaults) (hspells : Spells definition ks)
    (hcolumn : Parses Parse.column (.identifier "c" :: ks) c Parse.EndsEntry)
    (hkinds : kindsOf text = ls) (hoptions : Parses Parse.tableOptions ls options (· = .eof)) :
    parse defaults (singleColumnText definition text) =
      .ok [.createTable (singleColumn defaults c options)] := by
  refine parse_of_parses
    (Parse.parses_createTable (parses_singleColumn defaults hcolumn hoptions)) ?_
  rw [kindsOf_singleColumnText hspells, hkinds]

theorem parse_singleColumn_without_options {definition : Text} {c : Column}
    {ks : List TokenKind} (defaults : TableDefaults) (hspells : Spells definition ks)
    (hcolumn : Parses Parse.column (.identifier "c" :: ks) c Parse.EndsEntry) :
    parse defaults (singleColumnText definition []) =
      .ok [.createTable (singleColumn defaults c [])] :=
  parse_singleColumn defaults hspells hcolumn kindsOf_nil
    ((Parse.parses_many_of_none Parse.parses_no_tableOption).bind_pure List.flatten)

/-! ### From the result to the tokens -/

section Inversion

open Parse
open AgreesAt (bind_ok)

/-- A reader that begins with known tokens goes on behind them. -/
theorem Parses.of_bind_ok {p : Parse α} {f : α → Parse β} {a : α} {b : β} {ks rest : List TokenKind}
    {allowed : TokenKind → Prop} {c e : Cursor} (hp : Parses p ks a allowed) (hc : c.Spelt)
    (hkinds : c.kinds = ks ++ rest) (hrest : allowed (rest.headD .eof))
    (h : (p >>= f) c = .ok b e) :
    ∃ d, f a d = .ok b e ∧ d.Spelt ∧ d.kinds = rest := by
  rw [bind_ok p f (hp c rest hc hkinds hrest)] at h
  exact ⟨_, h, hc.drop _, Cursor.kinds_drop hkinds⟩

/-- A reader that only looks at the tokens goes on in front of them. -/
theorem Parses.of_look_ok {p : Parse α} {f : α → Parse β} {a : α} {b : β} {rest : List TokenKind}
    {allowed : TokenKind → Prop} {c e : Cursor} (hp : Parses p [] a allowed) (hc : c.Spelt)
    (hkinds : c.kinds = rest) (hrest : allowed (rest.headD .eof)) (h : (p >>= f) c = .ok b e) :
    ∃ d, f a d = .ok b e ∧ d.Spelt ∧ d.kinds = rest :=
  hp.of_bind_ok hc hkinds hrest h

variable {c d : Cursor} {n n' : Text} {rest : List TokenKind} {defaults : TableDefaults}

theorem exists_dataType_of_column {col : Column} (hc : c.Spelt)
    (hkinds : c.kinds = .identifier n :: rest) (h : column c = .ok col d) :
    ∃ c' d', c'.Spelt ∧ c'.kinds = rest ∧ dataType c' = .ok col.type.dataType d' := by
  obtain ⟨c', h, hc', hkinds'⟩ := (parses_name n .columnName).of_bind_ok hc hkinds trivial h
  obtain ⟨type, _, htype, h⟩ := Parse.exists_of_bind_ok h
  obtain ⟨os, _, -, h⟩ := Parse.exists_of_bind_ok h
  cases h
  obtain ⟨t, d', ht, htype⟩ := Parse.exists_of_bind_ok htype
  obtain ⟨ms, _, -, htype⟩ := Parse.exists_of_bind_ok htype
  cases htype
  refine ⟨c', d', hc', hkinds', ?_⟩
  rw [ht, dataType_foldl_modify]

theorem exists_column_of_entries {entries : List TableEntry} (hc : c.Spelt)
    (hkinds : c.kinds = .symbol .leftParen :: .identifier n :: rest)
    (h : parenthesized (commaSeparated tableEntry) c = .ok entries d) :
    ∃ c' d' col, c'.Spelt ∧ c'.kinds = .identifier n :: rest ∧ column c' = .ok col d' ∧
      (columnsOf entries).head? = some col := by
  obtain ⟨c₁, h, hc₁, hkinds₁⟩ := (parses_expectSymbol .leftParen).of_bind_ok hc hkinds trivial h
  obtain ⟨es, _, hes, h⟩ := Parse.exists_of_bind_ok h
  obtain ⟨_, _, -, h⟩ := Parse.exists_of_bind_ok h
  cases h
  obtain ⟨first, _, hfirst, hes⟩ := Parse.exists_of_bind_ok hes
  obtain ⟨others, _, -, hes⟩ := Parse.exists_of_bind_ok hes
  cases hes
  obtain ⟨c₂, hfirst, hc₂, hkinds₂⟩ :=
    (parses_atConstraint (k := .identifier n) rfl).of_look_ok hc₁ hkinds₁ rfl hfirst
  obtain ⟨col, d', hcol, hfirst⟩ := Parse.exists_of_bind_ok hfirst
  cases hfirst
  exact ⟨c₂, _, col, hc₂, hkinds₂, hcol, rfl⟩

theorem exists_column_of_table {t : Table} (hc : c.Spelt)
    (hkinds : c.kinds = .keyword .table :: .identifier n :: .symbol .leftParen ::
      .identifier n' :: rest) (h : table defaults c = .ok t d) :
    ∃ c' d' col, c'.Spelt ∧ c'.kinds = .identifier n' :: rest ∧ column c' = .ok col d' ∧
      t.columns.head? = some col := by
  obtain ⟨c₁, h, hc₁, hkinds₁⟩ :=
    (parses_accept_of_ne (.keyword .temporary)).of_look_ok hc hkinds nofun h
  obtain ⟨c₂, h, hc₂, hkinds₂⟩ := (parses_expectKeyword .table).of_bind_ok hc₁ hkinds₁ trivial h
  have hexists : Parses ifNotExists [] false (· ≠ .keyword .if) :=
    (parses_accept_of_ne (.keyword .if)).look (.pure false) fun _ => id
  obtain ⟨c₃, h, hc₃, hkinds₃⟩ := hexists.of_look_ok hc₂ hkinds₂ nofun h
  have hname : Parses qualifiedName [.identifier n] (none, n) (· ≠ .symbol .dot) :=
    (parses_name n .tableName).cons
      ((parses_accept_of_ne (.symbol .dot)).look (.pure _) fun _ => id)
  obtain ⟨c₄, h, hc₄, hkinds₄⟩ := hname.of_bind_ok hc₃ hkinds₃ nofun h
  obtain ⟨c₅, h, hc₅, hkinds₅⟩ :=
    (parses_at_of_ne (.keyword .like)).of_look_ok hc₄ hkinds₄ nofun h
  obtain ⟨entries, _, hentries, h⟩ := Parse.exists_of_bind_ok h
  obtain ⟨options, _, -, h⟩ := Parse.exists_of_bind_ok h
  cases h
  exact exists_column_of_entries hc₅ hkinds₅ hentries

theorem exists_table_of_parse {source : Text} {t : Table}
    (hkinds : kindsOf source = .keyword .create :: .keyword .table :: rest)
    (h : parse defaults source = .ok [.createTable t]) :
    ∃ c d, c.Spelt ∧ c.kinds = .keyword .table :: rest ∧ table defaults c = .ok t d := by
  have hcurrent : (Cursor.ofSource source).current.kind = .keyword .create := by
    rw [Cursor.kind_current_eq]
    exact congrArg (List.headD · .eof) hkinds
  unfold parse at h
  split at h
  · rename_i ss d hss
    cases h
    cases run_of_statements (Cursor.inside_ofSource source) hss with
    | semicolon hsemicolon _ =>
      rw [hcurrent] at hsemicolon
      cases hsemicolon
    | statement _ _ hs _ =>
      obtain ⟨c₁, hs, hc₁, hkinds₁⟩ := (parses_accept (.keyword .create)).of_bind_ok
        (Cursor.spelt_ofSource source) hkinds trivial hs
      have hkind : kind c₁ = .ok (.keyword .table) c₁ := by
        show EStateM.Result.ok c₁.current.kind c₁ = _
        rw [Cursor.kind_current_eq, hkinds₁]
        rfl
      have htable := (bind_ok kind _ hkind).symm.trans hs
      obtain ⟨t', _, ht, hend⟩ := Parse.exists_of_bind_ok htable
      obtain ⟨_, _, -, hend⟩ := Parse.exists_of_bind_ok hend
      cases hend
      exact ⟨c₁, _, hc₁, hkinds₁, ht⟩
  · cases h

/-- The type of the first column of a table is read from behind the name of the column. -/
theorem exists_dataType_of_parse {source : Text} {t : Table} {col : Column}
    (hkinds : kindsOf source = .keyword .create :: .keyword .table :: .identifier n ::
      .symbol .leftParen :: .identifier n' :: rest)
    (h : parse defaults source = .ok [.createTable t]) (hcol : t.columns.head? = some col) :
    ∃ c d, c.Spelt ∧ c.kinds = rest ∧ dataType c = .ok col.type.dataType d := by
  obtain ⟨c₁, _, hc₁, hkinds₁, ht⟩ := exists_table_of_parse hkinds h
  obtain ⟨c₂, _, col', hc₂, hkinds₂, hcolumn, hhead⟩ := exists_column_of_table hc₁ hkinds₁ ht
  obtain rfl : col' = col := Option.some.inj (hhead.symm.trans hcol)
  exact exists_dataType_of_column hc₂ hkinds₂ hcolumn

end Inversion

end SchemaModels.Ddl
