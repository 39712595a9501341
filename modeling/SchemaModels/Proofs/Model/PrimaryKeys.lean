import SchemaModels.Proofs.Model.Fields
import SchemaModels.Proofs.Text.Parts

/-!
# Primary keys in the settings of a column

A column is marked as a primary key once if an option of its own says so or a key of the table
names it, and then it does not say `NOT NULL` (`count_columnSettings`,
`notNull_mem_columnSettings`). Names are compared as they are spelled here, while a table finds its
columns in any letter case: a key that spells its column in another case is lost
(`marks_of_structOf`).
-/

namespace SchemaModels.Model

open Ddl (Column ColumnOption Expr Table DataType)

/-! ### Settings -/

theorem count_optionSettings (name : Text) (keys : TextSet) (os : List ColumnOption) :
    (optionSettings name keys os).1.count .primaryKey =
      if name ∉ keys ∧ .primaryKey ∈ os then 1 else 0 := by
  fun_induction optionSettings name keys os with
  | case1 keys => simp
  | case2 keys os settings after heq ih =>
      rw [heq] at ih
      simp only [TextSet.mem_insert, true_or, not_true_eq_false, false_and, if_false] at ih
      by_cases hname : name ∈ keys <;> simp [hname, ih]
  | case3 keys o os hne settings after heq ih =>
      rw [heq] at ih
      have ho : ColumnOption.primaryKey ≠ o := fun he => hne he.symm
      have hsetting : (settingOf? o).toList.count .primaryKey = 0 := by
        cases o <;> simp [settingOf?]
        split <;> simp
      simp only [List.count_append, hsetting, ih, Nat.zero_add, List.mem_cons, ho, false_or]

variable (c : Column) (keys : TextSet) (withType : Bool)

theorem count_columnSettings :
    (columnSettings c keys withType).1.count .primaryKey = if IsMarked keys c then 1 else 0 := by
  have hcolumn : Setting.column c.name ≠ .primaryKey := nofun
  have htype : (if withType then [Setting.type c.type.declaration] else []).count
      .primaryKey = 0 := by
    cases withType <;> simp
  have hnotNull : (if .notNull ∈ c.options ∧ ¬ IsMarked keys c then [Setting.notNull] else []).count
      .primaryKey = 0 := by
    split <;> simp
  rw [columnSettings_fst]
  simp only [List.cons_append, List.count_cons_of_ne hcolumn, List.count_append, htype,
    count_optionSettings, hnotNull]
  by_cases hname : c.name ∈ keys <;> simp [IsMarked, hname]

theorem notNull_mem_columnSettings : .notNull ∈ (columnSettings c keys withType).1 ↔
    .notNull ∈ c.options ∧ ¬ IsMarked keys c := by
  have hoptions : .notNull ∉ (optionSettings c.name keys c.options).1 := by
    intro h
    obtain h | ⟨o, -, ho⟩ := mem_optionSettings h
    · cases h
    · cases o <;> simp [settingOf?] at ho
  rw [columnSettings_fst]
  cases withType <;> by_cases hname : c.name ∈ keys <;> simp [hname, hoptions]

/-! ### The text of the settings -/

/-- The letter that the text of a setting begins with. -/
def Setting.initial : Setting → Char
  | .column _ => 'c'
  | .type _ => 't'
  | .primaryKey => 'p'
  | .autoIncrement => 'A'
  | .default _ => 'd'
  | .unique => 'u'
  | .notNull => 'N'

theorem Setting.head?_text (x : Setting) : x.text.head? = some x.initial := by
  cases x <;> rfl

/-- A setting without a value is told from the others by its text. -/
theorem Setting.eq_of_text {x y : Setting} (hy : y.entry.2 = none) (h : x.text = y.text) :
    x = y := by
  have hinitial : x.initial = y.initial := by
    have hhead := congrArg List.head? h
    rw [x.head?_text, y.head?_text] at hhead
    exact Option.some.inj hhead
  cases y <;> cases hy <;> cases x <;>
    first
    | rfl
    | simp [Setting.initial] at hinitial

theorem count_map_text {y : Setting} (hy : y.entry.2 = none) (xs : List Setting) :
    (xs.map Setting.text).count y.text = xs.count y := by
  rw [List.count, List.countP_map, List.count]
  apply List.countP_congr
  intro x _
  simp only [Function.comp_apply, beq_iff_eq]
  exact ⟨Setting.eq_of_text hy, congrArg Setting.text⟩

theorem mem_map_text {y : Setting} (hy : y.entry.2 = none) {xs : List Setting} :
    y.text ∈ xs.map Setting.text ↔ y ∈ xs := by
  rw [← List.count_pos_iff, count_map_text hy, List.count_pos_iff]

theorem semicolon_not_mem_group {items : List Text} (h : ∀ t ∈ items, ';' ∉ t) :
    ';' ∉ DataType.group items := by
  have hjoin : ';' ∉ Text.join "," items := Text.not_mem_join (by decide) h
  unfold DataType.group
  rw [List.mem_append, List.mem_append]
  exact fun hc => hc.elim (fun hc => hc.elim (by decide) hjoin) (by decide)

theorem semicolon_not_mem_numeral (n : Nat) : ';' ∉ Text.numeral n := fun h =>
  absurd (Text.isDigit_of_mem_numeral h) (by decide)

theorem semicolon_not_mem_numbers (p s : Option Nat) : ';' ∉ DataType.numbers p s := by
  cases p with
  | none => cases s <;> exact List.not_mem_nil
  | some p =>
      cases s with
      | none => exact semicolon_not_mem_group (by simp [semicolon_not_mem_numeral])
      | some s => exact semicolon_not_mem_group (by simp [semicolon_not_mem_numeral])

/-- The declaration of a type that has a counterpart holds no semicolon. -/
theorem semicolon_not_mem_declaration {type : Ddl.FieldType} (h : Go.classOf type.dataType ≠ none) :
    ';' ∉ type.declaration := by
  have hdata : ';' ∉ type.dataType.declaration := by
    cases hd : type.dataType with
    | sized k w =>
        have hk : ';' ∉ k.name := by cases k <;> decide
        simp [DataType.declaration, hk, semicolon_not_mem_numbers]
    | precise k p s =>
        have hk : ';' ∉ k.name := by cases k <;> decide
        simp [DataType.declaration, hk, semicolon_not_mem_numbers]
    | plain k => cases k <;> decide
    | enum ms => simp [hd, Go.classOf] at h
    | set ms => simp [hd, Go.classOf] at h
    | custom d => simp [hd, Go.classOf] at h
  unfold Ddl.FieldType.declaration
  split <;> split <;> simp [hdata]

/-- The settings read back from their text, where no name and no default holds a semicolon. -/
theorem splitOn_settingsText {o : Options} {c : Column} {keys : TextSet} {type : Go.FieldType}
    (htype : fieldType? o c = some type) (hname : ';' ∉ c.name)
    (hdefault : ∀ e, .default e ∈ c.options → ';' ∉ defaultText e) (withType : Bool) :
    Text.splitOn ';' (settingsText (columnSettings c keys withType).1) =
      (columnSettings c keys withType).1.map Setting.text := by
  have hclass : Go.classOf c.type.dataType ≠ none := by
    intro hn
    simp [fieldType?, Go.fieldType?, hn] at htype
  refine Text.splitOn_join (by simp [columnSettings_fst]) fun t ht hsemicolon => ?_
  obtain ⟨x, hx, rfl⟩ := List.mem_map.1 ht
  obtain h | h | ⟨v, hv, h⟩ := Setting.mem_text hsemicolon
  · exact absurd h (by decide)
  · exact absurd h (by decide)
  · obtain rfl | ⟨-, rfl⟩ | ⟨e, he, rfl⟩ := value_cases hx hv
    · exact hname h
    · exact semicolon_not_mem_declaration hclass h
    · exact hdefault e he h

/-! ### Keys of a table -/

/-- The column is a primary key: an option of its own says so, or a key of the table names it. -/
def IsKey (t : Table) (c : Column) : Prop :=
  .primaryKey ∈ c.options ∨ ∃ k ∈ t.primaryKeyColumns, Text.SameWord k c.name

/-- The column is a primary key by an option of its own or by a key that spells it as it is. -/
def IsSpelledKey (t : Table) (c : Column) : Prop :=
  .primaryKey ∈ c.options ∨ c.name ∈ t.primaryKeyColumns

/-- The settings mark a key once and do not call it `NOT NULL`. Another column is not marked, and
called so only by its option. -/
def Marks (settings : List Text) (isKey isNotNull : Prop) : Prop :=
  (isKey → settings.count ("primary_key" : Text) = 1 ∧ ("NOT NULL" : Text) ∉ settings) ∧
    (¬ isKey → ("primary_key" : Text) ∉ settings ∧ (("NOT NULL" : Text) ∈ settings ↔ isNotNull))

theorem IsSpelledKey.isKey {t : Table} {c : Column} (h : IsSpelledKey t c) : IsKey t c :=
  h.imp_right fun hk => ⟨c.name, hk, rfl⟩

/-- A mark tells a column that is a key from one that is not. -/
theorem marks_iff_of_marks {settings : List Text} {p q r : Prop} (h : Marks settings p r)
    (hpq : p → q) : Marks settings q r ↔ (q → p) := by
  constructor
  · intro hq hqt
    by_cases hp : p
    · exact hp
    · have hone := (hq.1 hqt).1
      rw [List.count_eq_zero.2 (h.2 hp).1] at hone
      cases hone
  · intro hqp
    have hiff : p = q := propext ⟨hpq, hqp⟩
    exact hiff ▸ h

theorem marks_columnSettings (c : Column) (keys : TextSet) (withType : Bool) :
    Marks ((columnSettings c keys withType).1.map Setting.text)
      (IsMarked keys c) (.notNull ∈ c.options) := by
  have hcount := (count_map_text (y := .primaryKey) rfl _).trans
    (count_columnSettings c keys withType)
  have hnotNull := (mem_map_text (y := .notNull) rfl).trans
    (notNull_mem_columnSettings c keys withType)
  constructor
  · intro hk
    rw [if_pos hk] at hcount
    exact ⟨hcount, fun hn => (hnotNull.1 hn).2 hk⟩
  · intro hk
    rw [if_neg hk] at hcount
    exact ⟨List.count_eq_zero.1 hcount, hnotNull.trans (and_iff_left hk)⟩

/-- Where the columns have different names, the keys known before a column concern it only if the
table names it. -/
theorem mem_keysAfter_take {t : Table}
    (hnames : t.columns.Pairwise fun c d => ¬ Text.SameWord c.name d.name) {i : Nat} {c : Column}
    (hc : t.columns[i]? = some c) :
    c.name ∈ keysAfter (.ofList t.primaryKeyColumns) (t.columns.take i) ↔
      c.name ∈ t.primaryKeyColumns := by
  rw [mem_keysAfter, TextSet.mem_ofList]
  refine or_iff_left ?_
  rintro ⟨d, hd, hname, -⟩
  obtain ⟨k, hk⟩ := List.mem_iff_getElem?.1 hd
  rw [List.getElem?_take] at hk
  split at hk
  · rename_i hki
    obtain ⟨hi, hci⟩ := List.getElem?_eq_some_iff.1 hc
    obtain ⟨hk', hdk⟩ := List.getElem?_eq_some_iff.1 hk
    have hne := List.pairwise_iff_getElem.1 hnames k i hk' hi hki
    rw [hci, hdk] at hne
    exact hne (congrArg Text.upper hname.symm)
  · cases hk

/-- A column of a transformed table is marked once as a primary key, and not called `NOT NULL`, if
it is one by its options or by a key that spells it as it is, and no other column is marked. So the
marks are those of the keys, in whatever letter case, exactly where every key spells its column. -/
theorem marks_of_structOf {o : Options} {t : Table} {s : Go.Struct} (h : structOf o t = .ok s)
    (hnames : t.columns.Pairwise fun c d => ¬ Text.SameWord c.name d.name) {i : Nat} {c : Column}
    (hc : t.columns[i]? = some c) (hname : ';' ∉ c.name)
    (hdefault : ∀ e, .default e ∈ c.options → ';' ∉ defaultText e) :
    ∃ f value, s.fields[i]? = some f ∧
      f.tag = (if o.jsonTag then "json:\"" ++ c.name ++ "\" " else []) ++
        "gorm:\"" ++ value ++ "\"" ∧
      Marks (Text.splitOn ';' value) (IsSpelledKey t c) (.notNull ∈ c.options) ∧
      (Marks (Text.splitOn ';' value) (IsKey t c) (.notNull ∈ c.options) ↔
        (IsKey t c → IsSpelledKey t c)) := by
  obtain ⟨-, hget⟩ := fields_of_structOf h
  obtain ⟨f, type, hf, hfield⟩ := hget i c hc
  let keys := keysAfter (.ofList t.primaryKeyColumns) (t.columns.take i)
  have hmarks := marks_columnSettings c keys o.gormType
  have hspelled : IsMarked keys c = IsSpelledKey t c := by
    rw [IsMarked, mem_keysAfter_take hnames hc, or_comm]
    rfl
  rw [← splitOn_settingsText hfield.fieldType?_eq hname hdefault, hspelled] at hmarks
  refine ⟨f, settingsText (columnSettings c keys o.gormType).1, hf, ?_, hmarks,
    marks_iff_of_marks hmarks IsSpelledKey.isKey⟩
  rw [hfield.tag]
  cases o.jsonTag <;> simp [columnTag, tagPairs, joinTags, Text.join, keys]

/-- A member of two keys, with a key option that is written twice. -/
def roleColumn : Column where
  name := "role_id"
  type := { dataType := .sized .int none }
  options := [.notNull, .primaryKey, .autoIncrement, .primaryKey]

def membershipTable : Table where
  name := "memberships"
  columns := [{ name := "user_id", type := { dataType := .sized .bigint none } }, roleColumn]
  constraints := [{ kind := .primaryKey, columns := ["user_id", "role_id"] }]

theorem marks_of_membershipTable :
    membershipTable.columns.Pairwise (fun c d => ¬ Text.SameWord c.name d.name) ∧
      membershipTable.columns[1]? = some roleColumn ∧ ';' ∉ roleColumn.name ∧
      (∀ e, .default e ∈ roleColumn.options → ';' ∉ defaultText e) ∧
      ∃ s f value, structOf { jsonTag := true } membershipTable = .ok s ∧ s.fields[1]? = some f ∧
        f.tag = ("json:\"" : Text) ++ "role_id" ++ "\" " ++ "gorm:\"" ++ value ++ "\"" ∧
        (Text.splitOn ';' value).count ("primary_key" : Text) = 1 ∧
        ("NOT NULL" : Text) ∉ Text.splitOn ';' value := by
  have hnames : membershipTable.columns.Pairwise fun c d => ¬ Text.SameWord c.name d.name := by
    decide
  have hdefault : ∀ e, .default e ∈ roleColumn.options → ';' ∉ defaultText e := by
    have hnone : ∀ o ∈ roleColumn.options, (o matches .default _) = false := by decide
    exact fun e he => absurd (hnone _ he) nofun
  have hok : (structOf { jsonTag := true } membershipTable).isOk = true := by decide +kernel
  cases hs : structOf { jsonTag := true } membershipTable with
  | error e =>
      rw [hs] at hok
      cases hok
  | ok s =>
      obtain ⟨f, value, hf, htag, hmarks, -⟩ :=
        marks_of_structOf hs hnames (i := 1) rfl (by decide) hdefault
      have hkey : IsSpelledKey membershipTable roleColumn := by
        unfold IsSpelledKey
        decide
      exact ⟨hnames, rfl, by decide, hdefault, s, f, value, rfl, hf, htag, hmarks.1 hkey⟩

def idColumn : Column where
  name := "id"
  type := { dataType := .sized .int none }
  options := [.notNull]

/-- The key of the table is its column in capitals. -/
def capitalKeyTable : Table where
  name := "users"
  columns := [idColumn]
  constraints := [{ kind := .primaryKey, columns := ["ID"] }]

theorem key_in_capitals_is_lost :
    IsKey capitalKeyTable idColumn ∧
      ((structOf {} capitalKeyTable).toOption.map fun s => s.fields.map (·.tag)) =
        some [("gorm:\"column:id;NOT NULL\"" : Text)] ∧
      ¬ Marks (Text.splitOn ';' "column:id;NOT NULL") (IsKey capitalKeyTable idColumn)
        (.notNull ∈ idColumn.options) := by
  have hkey : IsKey capitalKeyTable idColumn := Or.inr ⟨"ID", by decide, by decide⟩
  refine ⟨hkey, by decide +kernel, fun hmarks => ?_⟩
  exact absurd (hmarks.1 hkey).1 (by decide)

end SchemaModels.Model
