import SchemaModels.Proofs.Ddl.RenamedReaders

/-!
# Names in backquotes

Any text may stand for a name in backquotes, also that of a keyword (`parse_renamed`): where a text
is read with one name, it is read with every other one, and with the same result but for the name.
The one exception is the word `USING` where an index is named, because the lexer forgets the
backquotes and the word goes before the name there (`using_is_no_index_name`).
-/

namespace SchemaModels.Ddl

/-- The words behind which an index is named. -/
def Keyword.namesIndex (k : Keyword) : Bool :=
  k matches .key | .index | .unique | .fulltext | .spatial

/-- The name may stand in its place: where an index is named, it is not the word `USING`. -/
def Slot.Admits (s : Slot) (n : Text) : Prop :=
  Text.SameWord n "USING" → ∀ t k, s.before.getLast? = some t → t.kind = .keyword k →
    k.namesIndex = false

open Parse
open AgreesAt (bind_ok)

variable {s : Slot} {m n : Text} {g : Bool}

/-! ### Constraints -/

section Words

variable {ts : List Token} {k : Keyword}

theorem accept_last {present : Bool}
    (h : acceptKeyword k (s.ahead m ts) = .ok present (s.ahead m [])) :
    (present = true ∧ ∃ t, ts = [t] ∧ t.kind = .keyword k) ∨ present = false ∧ ts = [] := by
  unfold acceptKeyword at h
  rw [accept_eq] at h
  split at h
  · rename_i hkind
    obtain ⟨rfl, hcursor⟩ := ok_inj h
    obtain ⟨hlength, hts⟩ := Slot.of_drop_ahead (k := 1) hcursor
    cases ts with
    | nil => cases hkind
    | cons t ts => exact Or.inl ⟨rfl, t, by rw [hts]; rfl, hkind⟩
  · obtain ⟨rfl, hcursor⟩ := ok_inj h
    exact Or.inr ⟨rfl, Slot.ahead_inj hcursor⟩

theorem expectKeyword_last {u : Unit} (h : expectKeyword k (s.ahead m ts) = .ok u (s.ahead m [])) :
    ∃ t, ts = [t] ∧ t.kind = .keyword k := by
  obtain ⟨present, d, haccept, hrest⟩ := Parse.exists_of_bind_ok h
  cases present with
  | false => cases hrest
  | true =>
    obtain ⟨-, rfl⟩ := ok_inj hrest
    exact (accept_last haccept).elim (fun h => h.2) fun h => nomatch h.1

theorem keyOrIndex_last {u : Unit} (h : keyOrIndex (s.ahead m ts) = .ok u (s.ahead m [])) :
    ts = [] ∨ ∃ t k, ts = [t] ∧ t.kind = .keyword k ∧ k.namesIndex = true := by
  obtain ⟨present, d, haccept, hrest⟩ := Parse.exists_of_bind_ok h
  cases present with
  | true =>
    obtain ⟨-, rfl⟩ := ok_inj hrest
    obtain ⟨-, t, hts, hkind⟩ | ⟨hfalse, -⟩ := accept_last haccept
    · exact Or.inr ⟨t, _, hts, hkind, rfl⟩
    · cases hfalse
  | false =>
    obtain ⟨present, d', hindex, hrest⟩ := Parse.exists_of_bind_ok hrest
    obtain ⟨-, rfl⟩ := ok_inj hrest
    unfold acceptKeyword at haccept
    rw [accept_eq] at haccept
    split at haccept
    · cases haccept
    · obtain ⟨-, rfl⟩ := ok_inj haccept
      obtain ⟨-, t, hts, hkind⟩ | ⟨-, hnil⟩ := accept_last hindex
      · exact Or.inr ⟨t, _, hts, hkind, rfl⟩
      · exact Or.inl hnil

/-- The last word for the kind of a constraint is one behind which an index is named. -/
theorem constraintKind_last {x : ConstraintKind}
    (h : constraintKind (s.ahead m ts) = .ok x (s.ahead m [])) :
    ∃ t k, ts.getLast? = some t ∧ t.kind = .keyword k ∧ k.namesIndex = true := by
  cases ts with
  | nil => cases h
  | cons t ts =>
    obtain ⟨kind, d, hkind, hrest⟩ := Parse.exists_of_bind_ok h
    obtain ⟨hcurrent, rfl⟩ := ok_inj hkind
    have hkey {y : ConstraintKind}
        (h : (do advance; expectKeyword .key; return y) (s.ahead m (t :: ts)) =
          .ok x (s.ahead m [])) :
        ∃ u k, (t :: ts).getLast? = some u ∧ u.kind = .keyword k ∧ k.namesIndex = true := by
      obtain ⟨u, d, hexpect, hpure⟩ := Parse.exists_of_bind_ok (p := expectKeyword .key)
        (c := s.ahead m ts) h
      obtain ⟨-, rfl⟩ := ok_inj hpure
      obtain ⟨u, rfl, hu⟩ := expectKeyword_last hexpect
      exact ⟨u, _, rfl, hu, rfl⟩
    have hindex {k : Keyword} {y : ConstraintKind} (hk : t.kind = .keyword k)
        (hnames : k.namesIndex = true) (h : (do advance; keyOrIndex; return y)
          (s.ahead m (t :: ts)) = .ok x (s.ahead m [])) :
        ∃ u k, (t :: ts).getLast? = some u ∧ u.kind = .keyword k ∧ k.namesIndex = true := by
      obtain ⟨u, d, hread, hpure⟩ := Parse.exists_of_bind_ok (p := keyOrIndex) (c := s.ahead m ts) h
      obtain ⟨-, rfl⟩ := ok_inj hpure
      obtain rfl | ⟨u, k, rfl, hu, hnames⟩ := keyOrIndex_last hread
      · exact ⟨t, k, rfl, hk, hnames⟩
      · exact ⟨u, k, rfl, hu, hnames⟩
    have hword {k : Keyword} (hk : t.kind = .keyword k) (hnames : k.namesIndex = true)
        (h : (do advance; return ConstraintKind.index) (s.ahead m (t :: ts)) =
          .ok x (s.ahead m [])) :
        ∃ u k, (t :: ts).getLast? = some u ∧ u.kind = .keyword k ∧ k.namesIndex = true := by
      have hdrop : (s.ahead m (t :: ts)).drop 1 = s.ahead m [] := (ok_inj h).2
      obtain ⟨-, rfl⟩ := Slot.of_drop_ahead hdrop
      exact ⟨t, k, rfl, hk, hnames⟩
    split at hrest
    · exact hkey hrest
    · exact hindex hcurrent rfl hrest
    · exact hword hcurrent rfl hrest
    · exact hword hcurrent rfl hrest
    · exact hindex hcurrent rfl hrest
    · exact hindex hcurrent rfl hrest
    · exact hkey hrest
    · cases hrest

end Words

/-- An index is named where no parenthesis and not the word `USING` stands. -/
theorem indexName?_eq (k : ConstraintKind) (c : Cursor) : indexName? k c =
    if k = .primaryKey ∨ c.current.kind = .symbol .leftParen ∨
      isWord ["USING"] c.current.kind = true then .ok none c else (some <$> name .indexName) c := by
  unfold indexName?
  by_cases hk : k = .primaryKey
  · rw [if_pos hk, if_pos (Or.inl hk)]
    rfl
  have hat : atSymbol .leftParen c = .ok (decide (c.current.kind = .symbol .leftParen)) c := rfl
  have hword : atWord ["USING"] c = .ok (isWord ["USING"] c.current.kind) c := rfl
  rw [if_neg hk, bind_ok _ _ hat]
  by_cases hparen : c.current.kind = .symbol .leftParen
  · rw [if_pos (decide_eq_true hparen), if_pos (Or.inr (Or.inl hparen))]
    rfl
  rw [if_neg (by simpa using hparen), bind_ok _ _ hword]
  by_cases husing : isWord ["USING"] c.current.kind = true
  · rw [if_pos husing, if_pos (Or.inr (Or.inr husing))]
    rfl
  · rw [if_neg husing, if_neg (not_or.2 ⟨hk, not_or.2 ⟨hparen, husing⟩⟩), ← bind_pure_comp]

/-- The words for the kind of a constraint and the name of the index. -/
def indexHead : Parse (ConstraintKind × Option Text) := do
  let kind ← constraintKind
  let name ← indexName? kind
  return (kind, name)

/-- What stands behind the columns of a key. -/
def indexEnd (c : Constraint) : Parse Constraint := do
  if c.kind = .foreignKey then
    let _ ← references
  indexAttributes
  return c

/-- What stands behind the name of an index. -/
def indexBody (constraintName : Option Text) (head : ConstraintKind × Option Text) :
    Parse Constraint := do
  indexAttributes
  let columns ← keyParts
  indexEnd ⟨head.1, constraintName <|> head.2, columns⟩

theorem constraint_eq : constraint = (do
    let constraintName ← constraintName?
    if ← atKeyword .check then
      let _ ← check
      return ⟨.check, constraintName, []⟩
    indexBody constraintName (← indexHead)) := by
  unfold constraint indexHead indexBody indexEnd
  simp only [bind_assoc, pure_bind]

theorem passes_keyOrIndex (hs : s.Fits) : Passes s m n g keyOrIndex :=
  .bind hs (.accept hs nofun) fun _ => .ite (.pure _) (.bind hs (.accept hs nofun) fun _ => .pure _)

theorem passes_constraintKind (hs : s.Fits) : Passes s m n g constraintKind := by
  have hkey {k : ConstraintKind} :
      Passes s m n g (do advance; expectKeyword .key; return k) :=
    .bind hs .advance fun _ => .bind hs (.expectKeyword hs _) fun _ => .pure _
  have hindex {k : ConstraintKind} : Passes s m n g (do advance; keyOrIndex; return k) :=
    .bind hs .advance fun _ => .bind hs (passes_keyOrIndex hs) fun _ => .pure _
  refine .kind_bind (fun k => ?_) rfl
  split
  · exact hkey
  · exact hindex
  · exact .bind hs .advance fun _ => .pure _
  · exact .bind hs .advance fun _ => .pure _
  · exact hindex
  · exact hindex
  · exact hkey
  · exact .refuse _

/-- A name that may stand in its place is not taken for the word `USING` there. -/
theorem Slot.Admits.isWord_eq (hn : s.Admits n) {ts : List Token} (hts : ts <:+ s.before)
    {k : ConstraintKind} (h : constraintKind (s.ahead m ts) = .ok k (s.ahead m [])) :
    isWord ["USING"] (.identifier n) = false := by
  obtain ⟨t, word, hlast, hkind, hnames⟩ := constraintKind_last h
  obtain ⟨us, hbefore⟩ := hts
  have hword : ¬ Text.SameWord n "USING" := by
    intro husing
    have hnone := hn husing t word (by rw [← hbefore, List.getLast?_append, hlast]; rfl) hkind
    rw [hnames] at hnone
    cases hnone
  rw [isWord, List.any_cons, List.any_nil, Bool.or_false]
  exact decide_eq_false hword

theorem renames_indexHead (hs : s.Fits) (hm : s.Fresh m) (hn : s.Admits n) :
    Renames s m n false (.snd (.option .text)) indexHead := by
  have hstep : Stepwise indexHead :=
    Stepwise.constraintKind.bind fun k => (Stepwise.indexName? k).bind fun _ => .pure _
  refine ⟨hstep, fun {c d x} hc hread hx => ?_⟩
  obtain ⟨k, e, hkind, hrest⟩ := Parse.exists_of_bind_ok hread
  obtain ⟨i, e', hindex, hpure⟩ := Parse.exists_of_bind_ok hrest
  obtain ⟨rfl, rfl⟩ := ok_inj hpure
  have he := hc.of_reads (Stepwise.constraintKind.reads (hc.lexed hs) hkind)
  rw [indexName?_eq] at hindex
  split at hindex
  · obtain ⟨rfl, -⟩ := ok_inj hindex
    cases hx
  · rename_i hplain
    rw [← bind_pure_comp] at hindex
    obtain ⟨v, e'', hname, hsome⟩ := Parse.exists_of_bind_ok hindex
    obtain ⟨rfl, rfl⟩ := ok_inj hsome
    obtain rfl : m = v := by simpa [Naming.snd, Naming.option, Naming.text] using hx
    obtain ⟨rfl, rfl⟩ := Renames.eq_ahead_of_name hs hm he hname
    obtain ⟨ts, hts, -, rfl⟩ := hc.of_ahead hs Stepwise.constraintKind hkind
    -- The words for an index stand right in front of the name, so that it is not `USING`.
    have hword := hn.isWord_eq hts hkind
    have hindex : indexName? k (s.ahead n []) = .ok (some n) (s.behind n (lexemes s.back)) := by
      rw [indexName?_eq, if_neg (not_or.2 ⟨(not_or.1 hplain).1, not_or.2 ⟨nofun, ?_⟩⟩)]
      · rfl
      · exact fun h => absurd (hword.symm.trans h) nofun
    refine ⟨ts, lexemes s.back, hts, List.suffix_rfl, rfl, rfl, nofun, ?_⟩
    rw [indexHead, bind_ok _ _ ((passes_constraintKind (g := false) hs).same hts nofun hkind),
      bind_ok _ _ hindex]
    exact congrArg (fun v => EStateM.Result.ok (k, some v) _) (replaced_self m n).symm

theorem renames_keyPart (hs : s.Fits) (hm : s.Fresh m) : Renames s m n false .text keyPart := by
  have horder (part : Text) :
      Stepwise (do let _ ← acceptWord ["ASC", "DESC"]; return part) :=
    (Stepwise.acceptWord _).bind fun _ => .pure part
  have hother {part : Text} (h : m ∉ Naming.text.names part) :
      Renames s m n true .text (do let _ ← acceptWord ["ASC", "DESC"]; return part) :=
    .after hs (.of_stepwise hs (.acceptWord _)) fun _ => .pure h
  have hsame (part : Text) : Carries s m (Naming.text.rename (replaced m n))
      (do let _ ← acceptWord ["ASC", "DESC"]; return part)
      (do let _ ← acceptWord ["ASC", "DESC"]; return Naming.text.rename (replaced m n) part) :=
    .bind (.acceptWord _) fun _ => .pure rfl
  refine .after hs (.at? nofun) fun isExpr => ?_
  cases isExpr with
  | true =>
    have hgroup : Renames s m n false .text rawGroup :=
      .sourceOf hs hm ((Stepwise.expectSymbol _).bind fun _ => .skipGroup)
    exact .bind hs hgroup (.of_stepwise hs .rawGroup) horder (fun _ => hother) fun part _ =>
      hsame part
  | false =>
    have hlength (part : Text) := Stepwise.rawGroup.bind fun _ => horder part
    refine .bind hs (.name hs hm _) (.of_stepwise hs (.name _)) (fun part => ?_) (fun part h => ?_)
      fun part _ => ?_
    · exact (Stepwise.at? _).bind fun _ => .ite (hlength part) (horder part)
    · refine .after hs (.of_stepwise hs (.at? _)) fun _ => .ite ?_ (hother h)
      exact .after hs (.of_stepwise hs .rawGroup) fun _ => hother h
    · refine .bind (.at? _) fun _ => .ite ?_ (hsame part)
      exact .bind .rawGroup fun _ => hsame part

theorem renames_keyParts (hs : s.Fits) (hm : s.Fresh m) :
    Renames s m n true (.list .text) keyParts :=
  .parenthesized hs (.commaSeparated hs (renames_keyPart hs hm))

theorem stepwise_indexEnd (c : Constraint) : Stepwise (indexEnd c) :=
  .ite (Stepwise.references.bind fun _ => Stepwise.indexAttributes.bind fun _ => .pure c)
    (Stepwise.indexAttributes.bind fun _ => .pure c)

theorem stepwise_indexBody (name : Option Text) (x : ConstraintKind × Option Text) :
    Stepwise (indexBody name x) :=
  Stepwise.indexAttributes.bind fun _ => Stepwise.keyParts.bind fun _ => stepwise_indexEnd _

theorem renames_indexEnd (hs : s.Fits) {c : Constraint} (h : m ∉ c.names) :
    Renames s m n true .constraint (indexEnd c) := by
  have hattributes : Renames s m n true .constraint (do indexAttributes; return c) :=
    .after hs (.of_stepwise hs .indexAttributes) fun _ => .pure h
  exact .ite (.after hs (.of_stepwise hs .references) fun _ => hattributes) hattributes

theorem carries_indexEnd (c : Constraint) :
    Carries s m (Constraint.rename (replaced m n)) (indexEnd c)
      (indexEnd (c.rename (replaced m n))) := by
  have hattributes : Carries s m (Constraint.rename (replaced m n))
      (do indexAttributes; return c) (do indexAttributes; return c.rename (replaced m n)) :=
    .bind .indexAttributes fun _ => .pure rfl
  exact .ite (.bind .references fun _ => hattributes) hattributes

theorem renames_indexBody (hs : s.Fits) (hm : s.Fresh m) {name : Option Text}
    {x : ConstraintKind × Option Text} (h : m ∉ (name <|> x.2).toList) :
    Renames s m n true .constraint (indexBody name x) := by
  refine .after hs (.of_stepwise hs .indexAttributes) fun _ => ?_
  refine .bind hs (renames_keyParts hs hm) (.of_stepwise hs .keyParts)
    (fun _ => stepwise_indexEnd _) (fun columns hcolumns => renames_indexEnd hs ?_)
    fun columns _ => ?_
  · refine fun hmem => (List.mem_append.1 hmem).elim h fun hcolumn => hcolumns ?_
    simpa [Naming.list, Naming.text] using hcolumn
  · have hname : (name <|> x.2).map (replaced m n) = (name <|> x.2) :=
      (Naming.option .text).rename_of_not_mem (by simpa [Naming.option, Naming.text] using h) n
    have hcarries := carries_indexEnd (s := s) (m := m) (n := n) ⟨x.1, name <|> x.2, columns⟩
    rw [Constraint.rename, hname] at hcarries
    exact hcarries

theorem carries_indexBody (hs : s.Fits) (hm : s.Fresh m) {name name' i i' : Option Text}
    (k : ConstraintKind) (h : (name <|> i).map (replaced m n) = (name' <|> i')) :
    Carries s m (Constraint.rename (replaced m n)) (indexBody name (k, i))
      (indexBody name' (k, i')) := by
  have hkeys := renames_keyParts (n := n) hs hm
  refine .bind .indexAttributes fun _ => hkeys.carries fun columns hcolumns => ?_
  have hsame : columns.map (replaced m n) = columns :=
    (Naming.list .text).rename_of_not_mem hcolumns n
  have hcarries := carries_indexEnd (s := s) (m := m) (n := n) ⟨k, name <|> i, columns⟩
  rw [Constraint.rename, h, hsame] at hcarries
  exact hcarries

theorem passes_atConstraint : Passes s m n g atConstraint :=
  .kind_bind (fun k => by cases k <;> exact .pure _) rfl

theorem passes_constraintName? (hs : s.Fits) : Passes s m n g constraintName? := by
  refine .bind hs (.accept hs nofun) fun _ => .ite ?_ (.pure _)
  refine .bind hs passes_atConstraint fun _ => .ite (.pure _) ?_
  exact .bind hs (.name hs _) fun _ => .pure _

theorem renames_constraintName? (hs : s.Fits) (hm : s.Fresh m) :
    Renames s m n false (.option .text) constraintName? := by
  have hnone : Renames s m n false (.option .text) (pure none) := .pure List.not_mem_nil
  refine .after hs (.accept hs nofun) fun _ => .ite ?_ hnone
  refine .after hs passes_atConstraint fun _ => .ite hnone ?_
  exact .bind_pure some (.name hs hm _) (fun _ => rfl) fun _ => rfl

theorem stepwise_indexHead : Stepwise indexHead :=
  Stepwise.constraintKind.bind fun k => (Stepwise.indexName? k).bind fun _ => .pure _

theorem renames_index (hs : s.Fits) (hm : s.Fresh m) (hn : s.Admits n) {name : Option Text}
    (h : m ∉ (Naming.option .text).names name) :
    Renames s m n false .constraint (indexHead >>= indexBody name) := by
  have hname : name.map (replaced m n) = name := (Naming.option .text).rename_of_not_mem h n
  refine .bind hs (renames_indexHead hs hm hn) (.of_stepwise hs stepwise_indexHead)
    (stepwise_indexBody name) (fun x hx => renames_indexBody hs hm ?_) fun x _ => ?_
  · cases name with
    | none => simpa [Naming.snd, Naming.option, Naming.text] using hx
    | some v => simpa [Naming.option, Naming.text] using h
  · -- A name behind `CONSTRAINT` goes before that of the index, which is then dropped.
    refine carries_indexBody hs hm x.1 ?_
    cases name with
    | none => rfl
    | some v => exact hname

theorem renames_constraint (hs : s.Fits) (hm : s.Fresh m) (hn : s.Admits n) :
    Renames s m n false .constraint constraint := by
  have hcheck (name : Option Text) :
      Stepwise (do let _ ← check; return (⟨.check, name, []⟩ : Constraint)) :=
    Stepwise.check.bind fun _ => .pure _
  rw [constraint_eq]
  refine .bind hs (renames_constraintName? hs hm) (passes_constraintName? (g := false) hs)
    (fun name => ?_) (fun name hname => ?_) fun name hname => ?_
  · exact (Stepwise.at? _).bind fun _ => .ite (hcheck name)
      (stepwise_indexHead.bind fun x => stepwise_indexBody name x)
  · refine .after hs (.at? nofun) fun _ => .ite (.never (hcheck name) ?_)
      (renames_index hs hm hn hname)
    intro c a d _ hread ha
    obtain ⟨_, _, -, hpure⟩ := Parse.exists_of_bind_ok hread
    obtain ⟨rfl, -⟩ := ok_inj hpure
    refine hname ?_
    simpa [Naming.constraint, Constraint.names, Naming.option, Naming.text] using ha
  · obtain ⟨v, rfl⟩ : ∃ v, name = some v := by
      cases name with
      | none => cases hname
      | some v => exact ⟨v, rfl⟩
    refine .bind (.at? _) fun _ => .ite (.bind .check fun _ => .pure rfl) ?_
    exact .bind stepwise_indexHead fun x => carries_indexBody hs hm x.1 rfl

/-! ### Tables -/

theorem renames_column (hs : s.Fits) (hm : s.Fresh m) : Renames s m n false .column column := by
  refine .bind hs (.name hs hm _) (.of_stepwise hs (.name _)) (fun name => ?_)
    (fun name hname => ?_) fun name _ => ?_
  · exact Stepwise.fieldType.bind fun _ => Stepwise.columnOption.many.bind fun _ => .pure _
  · refine .after hs (.of_stepwise hs .fieldType) fun _ => ?_
    exact .after hs (.of_stepwise hs Stepwise.columnOption.many) fun _ => .pure hname
  · exact .bind .fieldType fun _ => .bind Stepwise.columnOption.many fun _ => .pure rfl

theorem renames_tableEntry (hs : s.Fits) (hm : s.Fresh m) (hn : s.Admits n) :
    Renames s m n false .entry tableEntry := by
  refine .after hs passes_atConstraint fun _ => .ite ?_ ?_
  · exact .bind_pure TableEntry.constraint (renames_constraint hs hm hn) (fun _ => rfl) fun _ => rfl
  · exact .bind_pure TableEntry.column (renames_column hs hm) (fun _ => rfl) fun _ => rfl

theorem renames_qualifiedName (hs : s.Fits) (hm : s.Fresh m) :
    Renames s m n false (.both (.option .text) .text) qualifiedName := by
  have hname := Renames.name (n := n) hs hm .tableName
  refine .bind hs hname (.name (g := false) hs _) (fun first => ?_) (fun first hfirst => ?_)
    fun first _ => ?_
  · exact (Stepwise.accept _).bind fun _ => .ite ((Stepwise.name _).bind fun _ => .pure _) (.pure _)
  · refine .after hs (.accept hs nofun) fun _ => .ite ?_ (.pure hfirst)
    refine .bind hs hname (.of_stepwise hs (.name _)) (fun _ => .pure _) (fun second hsecond => ?_)
      fun second _ => .pure ?_
    · exact .pure fun hmem => (List.mem_append.1 hmem).elim hfirst hsecond
    · exact congrArg (some · , _) (Naming.text.rename_of_not_mem hfirst n)
  · refine .bind (.accept _) fun _ => .ite ?_ (.pure rfl)
    refine hname.carries fun second hsecond => .pure ?_
    exact congrArg (some _, ·) (Naming.text.rename_of_not_mem hsecond n)

theorem columnsOf_rename (f : Text → Text) (entries : List TableEntry) :
    columnsOf (entries.map (TableEntry.rename f)) = (columnsOf entries).map (Column.rename f) := by
  induction entries with
  | nil => rfl
  | cons e entries ih => cases e <;> simpa [columnsOf, TableEntry.rename] using ih

theorem constraintsOf_rename (f : Text → Text) (entries : List TableEntry) :
    constraintsOf (entries.map (TableEntry.rename f)) =
      (constraintsOf entries).map (Constraint.rename f) := by
  induction entries with
  | nil => rfl
  | cons e entries ih => cases e <;> simpa [constraintsOf, TableEntry.rename] using ih

theorem names_columnsOf {entries : List TableEntry}
    (h : m ∈ (columnsOf entries).flatMap Column.names) : m ∈ entries.flatMap TableEntry.names := by
  obtain ⟨c, hc, hm⟩ := List.mem_flatMap.1 h
  obtain ⟨e, he, hcolumn⟩ := List.mem_filterMap.1 hc
  refine List.mem_flatMap.2 ⟨e, he, ?_⟩
  cases e <;> cases hcolumn
  exact hm

theorem names_constraintsOf {entries : List TableEntry}
    (h : m ∈ (constraintsOf entries).flatMap Constraint.names) :
    m ∈ entries.flatMap TableEntry.names := by
  obtain ⟨c, hc, hm⟩ := List.mem_flatMap.1 h
  obtain ⟨e, he, hconstraint⟩ := List.mem_filterMap.1 hc
  refine List.mem_flatMap.2 ⟨e, he, ?_⟩
  cases e <;> cases hconstraint
  exact hm

section Entries

variable {build build' : List TableEntry → List TableOption → Table}

/-- The entries of a table and its options. -/
def entriesBody (build : List TableEntry → List TableOption → Table) : Parse Table := do
  let entries ← parenthesized (commaSeparated tableEntry)
  let options ← tableOptions
  return build entries options

/-- What is read behind the name of a table. -/
def tableBody (build : List TableEntry → List TableOption → Table) : Parse Table := do
  if ← atKeyword .like then fail .likeTable
  entriesBody build

theorem stepwise_likeTable : Stepwise (fail .likeTable : Parse Unit) := .fail fun _ => rfl

theorem stepwise_entriesBody : Stepwise (entriesBody build) :=
  Stepwise.tableEntry.commaSeparated.parenthesized.bind fun _ =>
    Stepwise.tableOptions.bind fun _ => .pure _

theorem stepwise_tableBody : Stepwise (tableBody build) :=
  (Stepwise.at? _).bind fun _ =>
    .ite (stepwise_likeTable.bind fun _ => stepwise_entriesBody) stepwise_entriesBody

theorem renames_entries (hs : s.Fits) (hm : s.Fresh m) (hn : s.Admits n) :
    Renames s m n true (.list .entry) (parenthesized (commaSeparated tableEntry)) :=
  .parenthesized hs (.commaSeparated hs (renames_tableEntry hs hm hn))

theorem renames_entriesBody (hs : s.Fits) (hm : s.Fresh m) (hn : s.Admits n)
    (hnames : ∀ entries options, m ∈ (build entries options).names →
      m ∈ entries.flatMap TableEntry.names)
    (hrename : ∀ entries options, (build entries options).rename (replaced m n) =
      build (entries.map (TableEntry.rename (replaced m n))) options) :
    Renames s m n true .table (entriesBody build) := by
  have hentries := renames_entries hs hm hn
  refine .bind hs hentries (.of_stepwise hs hentries.stepwise)
    (fun _ => Stepwise.tableOptions.bind fun _ => .pure _) (fun entries h => ?_)
    fun entries _ => ?_
  · exact .after hs (.of_stepwise hs .tableOptions) fun options => .pure (mt (hnames _ _) h)
  · exact .bind .tableOptions fun options => .pure (hrename entries options)

theorem renames_tableBody (hs : s.Fits) (h : Renames s m n true .table (entriesBody build)) :
    Renames s m n true .table (tableBody build) := by
  refine .after hs (.of_stepwise hs (.at? _)) fun _ => .ite ?_ h
  exact .after hs (.of_stepwise hs stepwise_likeTable) fun _ => h

theorem carries_tableBody (hs : s.Fits) (hm : s.Fresh m) (hn : s.Admits n)
    (h : ∀ entries options, m ∉ entries.flatMap TableEntry.names →
      (build entries options).rename (replaced m n) = build' entries options) :
    Carries s m (Table.rename (replaced m n)) (tableBody build) (tableBody build') := by
  have hentries : Carries s m (Table.rename (replaced m n)) (entriesBody build)
      (entriesBody build') :=
    (renames_entries hs hm hn).carries fun entries hentries =>
      .bind .tableOptions fun options => .pure (h entries options hentries)
  exact .bind (.at? _) fun _ => .ite (.bind stepwise_likeTable fun _ => hentries) hentries

end Entries

theorem renames_table (hs : s.Fits) (hm : s.Fresh m) (hn : s.Admits n) (defaults : TableDefaults) :
    Renames s m n false .table (table defaults) := by
  have hexists : Passes s m n false ifNotExists :=
    .bind hs (.accept hs nofun) fun _ => .ite (.bind hs (.expectKeyword hs _) fun _ =>
      .bind hs (.expectKeyword hs _) fun _ => .pure _) (.pure _)
  refine .after hs (.accept hs nofun) fun temporary => ?_
  refine .after hs (.expectKeyword hs _) fun _ => .after hs hexists fun exists? => ?_
  refine .bind hs (renames_qualifiedName hs hm) (.of_stepwise hs .qualifiedName)
    (fun names => stepwise_tableBody) (fun names hnames => ?_) fun names _ => ?_
  · have hqualified := (Naming.both (.option .text) .text).rename_of_not_mem hnames n
    have hschema : names.1.map (replaced m n) = names.1 := congrArg Prod.fst hqualified
    have hname : replaced m n names.2 = names.2 := congrArg Prod.snd hqualified
    refine renames_tableBody hs (renames_entriesBody hs hm hn (fun entries options h => ?_)
      fun entries options => ?_)
    · obtain hschema' | hrest := List.mem_append.1 h
      · refine absurd (List.mem_append_left _ ?_) hnames
        simpa [Naming.option, Naming.text] using hschema'
      obtain rfl | hentries := List.mem_cons.1 hrest
      · exact absurd (List.mem_append_right _ List.mem_cons_self) hnames
      · exact (List.mem_append.1 hentries).elim names_columnsOf names_constraintsOf
    · rw [columnsOf_rename, constraintsOf_rename]
      simp only [Table.rename, hschema, hname]
  · refine carries_tableBody hs hm hn fun entries options h => ?_
    have hentries : entries.map (TableEntry.rename (replaced m n)) = entries :=
      (Naming.list .entry).rename_of_not_mem h n
    have hcolumns := columnsOf_rename (replaced m n) entries
    have hconstraints := constraintsOf_rename (replaced m n) entries
    rw [hentries] at hcolumns hconstraints
    simp only [Table.rename, ← hcolumns, ← hconstraints]
    rfl

/-! ### Statements -/

theorem renames_statement (hs : s.Fits) (hm : s.Fresh m) (hn : s.Admits n)
    (defaults : TableDefaults) : Renames s m n true .statement (statement defaults) := by
  have hother : Renames s m n true .statement otherStatement :=
    .after hs (.of_stepwise hs .skipStatement) fun _ =>
      .after hs (.of_stepwise hs (.accept _)) fun _ => .pure List.not_mem_nil
  have hcreate : Renames s m n false .statement (createStatement defaults) := by
    refine .kind_bind (fun k => .ite ?_ hother.unguard) rfl
    refine .bind hs (renames_table hs hm hn defaults) (.of_stepwise hs (.table defaults))
      (fun t => Stepwise.statementEnd.bind fun _ => .pure _) (fun t ht => ?_) fun t _ => ?_
    · exact .after hs (.of_stepwise hs .statementEnd) fun _ => .pure ht
    · exact .bind .statementEnd fun _ => .pure rfl
  unfold statement
  exact .acceptKeyword_bind hs (by decide) hcreate hother

theorem renames_statements (hs : s.Fits) (hm : s.Fresh m) (hn : s.Admits n)
    (defaults : TableDefaults) :
    Renames s m n true (.list .statement) (statements defaults) := by
  refine .many hs ?_
  refine .after hs (.of_stepwise hs (.skipWhile _)) fun _ => ?_
  refine .after hs (.of_stepwise hs (.at? _)) fun _ => .ite (.pure List.not_mem_nil) ?_
  exact .map some (renames_statement hs hm hn defaults) (fun _ => List.append_nil _) fun _ => rfl

/-! ### Texts -/

/-- Every text may be a name in backquotes. Where a definition is read with a name that stands
nowhere else, it is read with any other name in that place, and comes out with that name. Only the
word `USING` may not stand behind the words for an index. -/
theorem parse_renamed {defaults : TableDefaults} {a m b : Text} {before after : List Token}
    {stop : Nat} {ss : List Statement} (hfront : ¬ m <:+: a) (hback : ¬ m <:+: b)
    (hplain : '\x60' ∉ m)
    (hplace : lexemes (a ++ backquoted m ++ b) =
      before ++ ⟨.identifier m, ⟨Text.byteLength a, stop⟩⟩ :: after)
    (hparse : parse defaults (a ++ backquoted m ++ b) = .ok ss)
    (hname : m ∈ ss.flatMap Statement.names) (n : Text)
    (hword : Text.SameWord n "USING" → ∀ t k, before.getLast? = some t → t.kind = .keyword k →
      k.namesIndex = false) :
    parse defaults (a ++ backquoted n ++ b) = .ok (ss.map (Statement.rename (replaced m n))) := by
  let s : Slot := ⟨a, b, before⟩
  have hs : s.Fits := lexemes_backquoted hplain hplace
  have hm : s.Fresh m := ⟨hfront, hback, hplain⟩
  have hsource (n : Text) : Cursor.ofSource (a ++ backquoted n ++ b) = s.ahead n before :=
    hs.ofSource_eq n
  have hrenames := renames_statements hs hm (n := n) hword defaults
  unfold parse at hparse ⊢
  rw [hsource] at hparse ⊢
  split at hparse
  · rename_i d hread
    cases hparse
    obtain ⟨ts, us, -, -, heq, -, -, hn⟩ :=
      hrenames.crosses (Or.inl ⟨before, List.suffix_rfl, rfl⟩) hread hname
    obtain rfl := Slot.ahead_inj heq
    rw [hn]
    rfl
  · cases hparse

theorem parse_renamed_to_using :
    parse {} ("CREATE TABLE t (" ++ backquoted "using" ++ " INT)") = .ok [.createTable
      { name := "t", columns := [⟨"using", { dataType := .sized .int none }, []⟩] }] := by
  have hplace : lexemes ("CREATE TABLE t (" ++ backquoted "x" ++ " INT)") =
      [⟨.keyword .create, ⟨0, 6⟩⟩, ⟨.keyword .table, ⟨7, 12⟩⟩, ⟨.identifier "t", ⟨13, 14⟩⟩,
        ⟨.symbol .leftParen, ⟨15, 16⟩⟩] ++
      ⟨.identifier "x", ⟨Text.byteLength "CREATE TABLE t (", 19⟩⟩ ::
        [⟨.identifier "INT", ⟨20, 23⟩⟩, ⟨.symbol .rightParen, ⟨23, 24⟩⟩] := by decide +kernel
  have hparse : parse {} ("CREATE TABLE t (" ++ backquoted "x" ++ " INT)") = .ok [.createTable
      { name := "t", columns := [⟨"x", { dataType := .sized .int none }, []⟩] }] := by
    decide +kernel
  have hfront : ¬ ("x" : Text) <:+: "CREATE TABLE t (" := by decide +kernel
  have hback : ¬ ("x" : Text) <:+: " INT)" := by decide +kernel
  have hplain : '\x60' ∉ ("x" : Text) := by decide +kernel
  refine (parse_renamed hfront hback hplain hplace hparse (by decide +kernel) "using" ?_).trans ?_
  · -- The token in front of the name is a parenthesis.
    intro _ t k hlast hkind
    cases hlast
    cases hkind
  · decide +kernel

/-- The lexer forgets the backquotes, and behind `KEY` the word goes before a name. -/
theorem using_is_no_index_name :
    parse {} ("CREATE TABLE t (a INT, KEY " ++ backquoted "using" ++ " (a))") =
      .error ⟨.unexpected (.symbol .leftParen) (.identifier "a"), ⟨36, 37⟩⟩ := by
  decide +kernel

end SchemaModels.Ddl
