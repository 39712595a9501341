import SchemaModels.Proofs.Go.DraftLines
import SchemaModels.Proofs.Model.FieldNames

/-!
# When a table generates

Where every type is known and every tag can stand between backquotes, the names of the fields decide
whether a table generates: each has to begin with a letter (`generates_iff`). Nothing else that is
written into the struct takes part, whatever it looks like: not the name and the comments of the
table, nor the comments of its columns, nor the options that choose a type, cut a prefix from the
name of the table or spell acronyms.
-/

namespace SchemaModels.Model

open Ddl (Column ColumnOption Table)
open Naming (BeginsWithLetter)

/-! ### Fields -/

/-- The tags of columns, where the given primary keys are known before them. -/
def columnTags (withJson withType : Bool) : TextSet → List Column → List Text
  | _, [] => []
  | keys, c :: cs =>
    columnTag c keys withJson withType ::
      columnTags withJson withType (optionSettings c.name keys c.options).2 cs

/-- The tags of a table's fields. -/
def tableTags (o : Options) (t : Table) : List Text :=
  columnTags o.jsonTag o.gormType (.ofList t.primaryKeyColumns) t.columns

/-- The name of a column's field. -/
def columnFieldName (o : Options) (c : Column) : Text :=
  Naming.fieldName o.acronyms (stripColumnPrefix o.columnPrefix c.name)

/-- The type of the column has a counterpart. -/
def IsSupported (c : Column) : Prop := (Go.classOf c.type.dataType).isSome = true

instance (c : Column) : Decidable (IsSupported c) := inferInstanceAs (Decidable (_ = _))

theorem exists_fieldType (o : Options) {c : Column} (h : IsSupported c) :
    ∃ type, fieldType? o c = some type := by
  obtain ⟨k, hk⟩ := Option.isSome_iff_exists.1 h
  exact ⟨_, Option.map_eq_some_iff.2 ⟨k, hk, rfl⟩⟩

theorem exists_fieldsOf (o : Options) (table : Text) {cs : List Column}
    (h : ∀ c ∈ cs, IsSupported c) (keys : TextSet) :
    ∃ ps, fieldsOf o table keys cs = .ok ps ∧
      ps.map (·.1.tag) = columnTags o.jsonTag o.gormType keys cs ∧
      ps.map (·.1.name) = cs.map (columnFieldName o) := by
  induction cs generalizing keys with
  | nil => exact ⟨[], rfl, rfl, rfl⟩
  | cons c cs ih =>
      obtain ⟨type, htype⟩ := exists_fieldType o (h c List.mem_cons_self)
      obtain ⟨ps, hps, htags, hnames⟩ := ih (fun d hd => h d (List.mem_cons_of_mem c hd))
        (optionSettings c.name keys c.options).2
      refine ⟨(fieldOf o c (columnSettings c keys o.gormType).1 type, type) :: ps, ?_, ?_, ?_⟩
      · unfold fieldsOf
        dsimp only
        rw [htype]
        change (fieldsOf o table (optionSettings c.name keys c.options).2 cs >>= _) = _
        rw [hps]
        rfl
      · rw [List.map_cons, htags]
        rfl
      · rw [List.map_cons, hnames]
        rfl

/-- A table whose types are all known has a struct, with a field for each column. -/
theorem exists_structOf (o : Options) {t : Table} (h : ∀ c ∈ t.columns, IsSupported c) :
    ∃ s, structOf o t = .ok s ∧ s.fields.map (·.tag) = tableTags o t ∧
      s.fields.map (·.name) = t.columns.map (columnFieldName o) := by
  obtain ⟨ps, hps, htags, hnames⟩ := exists_fieldsOf o t.name h (.ofList t.primaryKeyColumns)
  unfold structOf
  rw [hps]
  refine ⟨_, rfl, ?_, ?_⟩
  · rw [List.map_map]
    exact htags
  · rw [List.map_map]
    exact hnames

/-! ### Comments -/

def isComment : ColumnOption → Bool
  | .comment _ => true
  | _ => false

/-- A column with all but its comments. -/
def withoutComments (c : Column) : Column :=
  { c with options := c.options.filter (!isComment ·) }

theorem optionSettings_filter (name : Text) (keys : TextSet) (os : List ColumnOption) :
    optionSettings name keys (os.filter (!isComment ·)) = optionSettings name keys os := by
  fun_induction optionSettings name keys os with
  | case1 keys => rfl
  | case2 keys os settings after heq ih =>
      rw [List.filter_cons_of_pos rfl, optionSettings, ih, heq]
  | case3 keys o os hne settings after heq ih =>
      by_cases ho : isComment o = true
      · obtain ⟨text, rfl⟩ : ∃ text, o = .comment text := by
          cases o <;> simp_all [isComment]
        rw [List.filter_cons_of_neg (by simp [isComment]), ih, heq]
        rfl
      · rw [List.filter_cons_of_pos (by simpa using ho), optionSettings, ih, heq]
        exact hne

theorem columnTag_withoutComments (c : Column) (keys : TextSet) (withJson withType : Bool) :
    columnTag (withoutComments c) keys withJson withType = columnTag c keys withJson withType := by
  have hmem : ∀ o, isComment o = false → (o ∈ (withoutComments c).options ↔ o ∈ c.options) := by
    intro o ho
    simp [withoutComments, List.mem_filter, ho]
  have hmarked : IsMarked keys (withoutComments c) ↔ IsMarked keys c :=
    or_congr Iff.rfl (hmem .primaryKey rfl)
  have hoptions : optionSettings (withoutComments c).name keys (withoutComments c).options =
      optionSettings c.name keys c.options := optionSettings_filter c.name keys c.options
  have hsettings : (columnSettings (withoutComments c) keys withType).1 =
      (columnSettings c keys withType).1 := by
    simp only [columnSettings_fst, hmarked, hmem .notNull rfl, hoptions]
    rfl
  rw [columnTag, hsettings]
  rfl

theorem columnTags_withoutComments (withJson withType : Bool) (keys : TextSet)
    (cs : List Column) : columnTags withJson withType keys (cs.map withoutComments) =
      columnTags withJson withType keys cs := by
  induction cs generalizing keys with
  | nil => rfl
  | cons c cs ih =>
      rw [List.map_cons, columnTags, columnTags, columnTag_withoutComments, ← ih]
      change _ :: columnTags withJson withType (optionSettings c.name keys _).2 _ = _
      rw [withoutComments, optionSettings_filter]

/-! ### Tables -/

theorem exists_generateTable_iff {o : Options} {t : Table} {s : Go.Struct}
    (hs : structOf o t = .ok s) :
    (∃ m, generateTable o t = .ok m) ↔ ∃ text, s.render = .ok text := by
  constructor
  · rintro ⟨m, h⟩
    obtain ⟨part, hpart, -⟩ := exists_of_bind_ok h
    obtain ⟨s', hs', hpart⟩ := exists_of_bind_ok hpart
    obtain ⟨text, htext, -⟩ := exists_of_bind_ok hpart
    rw [hs] at hs'
    cases hs'
    exact ⟨text, mapError_eq_ok_iff.1 htext⟩
  · rintro ⟨text, htext⟩
    have hrender : renderStruct s = .ok text := mapError_eq_ok_iff.2 htext
    have hpart : generateStruct o t = .ok (text, s.imports) := by
      rw [generateStruct, hs]
      change (renderStruct s >>= _) = _
      rw [hrender]
      rfl
    rw [generateTable, hpart]
    exact ⟨_, rfl⟩

theorem exists_generateTable_iff_names {o : Options} {t : Table}
    (hsupported : ∀ c ∈ t.columns, IsSupported c) (htags : ∀ tag ∈ tableTags o t, Go.IsRaw tag) :
    (∃ m, generateTable o t = .ok m) ↔
      ∀ c ∈ t.columns, BeginsWithLetter (columnFieldName o c) := by
  obtain ⟨s, hs, hfieldTags, hnames⟩ := exists_structOf o hsupported
  have hraw : ∀ f ∈ s.fields, Go.IsRaw f.tag := by
    intro f hf
    exact htags f.tag (hfieldTags ▸ List.mem_map_of_mem hf)
  have hfields : (∀ f ∈ s.fields, Go.Format.isIdentifier f.name = true) ↔
      ∀ name ∈ s.fields.map (·.name), Go.Format.isIdentifier name = true := by
    simp
  rw [exists_generateTable_iff hs,
    Go.Struct.exists_render_iff (isRegular_of_structOf hs) hraw, hfields, hnames]
  simp [columnFieldName, Naming.isIdentifier_fieldName]

/-- The tables agree in all that tags and names of fields are made from. Nothing is said of the
names and the comments of the tables, of the comments of their columns, nor of the other options. -/
structure Alike (o o' : Options) (t t' : Table) : Prop where
  columns : t'.columns.map withoutComments = t.columns.map withoutComments
  primaryKeyColumns : t'.primaryKeyColumns = t.primaryKeyColumns
  columnPrefix : o'.columnPrefix = o.columnPrefix
  jsonTag : o'.jsonTag = o.jsonTag
  gormType : o'.gormType = o.gormType

namespace Alike

variable {o o' : Options} {t t' : Table}

/-- What comments have no part in holds of all columns of both tables or of neither's. -/
theorem forall_columns_iff (h : Alike o o' t t') {p : Column → Prop}
    (hp : ∀ c, p (withoutComments c) ↔ p c) :
    (∀ c ∈ t'.columns, p c) ↔ ∀ c ∈ t.columns, p c := by
  have hmap : ∀ cs : List Column, (∀ c ∈ cs, p c) ↔ ∀ c ∈ cs.map withoutComments, p c := by
    intro cs
    simp [hp]
  rw [hmap, h.columns, ← hmap]

theorem tableTags_eq (h : Alike o o' t t') : tableTags o' t' = tableTags o t := by
  unfold tableTags
  rw [← columnTags_withoutComments, h.columns, columnTags_withoutComments, h.primaryKeyColumns,
    h.jsonTag, h.gormType]

theorem isSupported_iff (h : Alike o o' t t') :
    (∀ c ∈ t'.columns, IsSupported c) ↔ ∀ c ∈ t.columns, IsSupported c :=
  h.forall_columns_iff fun _ => Iff.rfl

theorem beginsWithLetter_iff (h : Alike o o' t t') :
    (∀ c ∈ t'.columns, BeginsWithLetter (columnFieldName o' c)) ↔
      ∀ c ∈ t.columns, BeginsWithLetter (columnFieldName o c) := by
  have hname : ∀ c, BeginsWithLetter (columnFieldName o' c) ↔
      BeginsWithLetter (columnFieldName o c) := by
    intro c
    unfold columnFieldName
    rw [h.columnPrefix]
    exact Naming.beginsWithLetter_fieldName_congr _ _ _
  simp only [hname]
  exact h.forall_columns_iff fun _ => Iff.rfl

end Alike

/-- Where the types are known and the tags can be quoted, a table generates exactly if the names of
its fields begin with letters. Whatever has no part in the tags and in these names, such as the
name of the table, a comment, the style of `NULL`, the acronyms or the prefix of the table, makes no
difference. -/
theorem generates_iff {o : Options} {t : Table} (hsupported : ∀ c ∈ t.columns, IsSupported c)
    (htags : ∀ tag ∈ tableTags o t, Go.IsRaw tag) :
    ((∃ m, generateTable o t = .ok m) ↔
      ∀ c ∈ t.columns, BeginsWithLetter (columnFieldName o c)) ∧
    ∀ o' t', Alike o o' t t' →
      ((∃ m, generateTable o' t' = .ok m) ↔ ∃ m, generateTable o t = .ok m) := by
  refine ⟨exists_generateTable_iff_names hsupported htags, fun o' t' h => ?_⟩
  rw [exists_generateTable_iff_names hsupported htags, ← h.beginsWithLetter_iff]
  exact exists_generateTable_iff_names (h.isSupported_iff.2 hsupported)
    fun tag htag => htags tag (h.tableTags_eq ▸ htag)

/-- A table with a prefix before the names of its columns. -/
def eventsTable : Table where
  name := "events"
  columns := [
    { name := "f_url_id", type := { dataType := .sized .int none }, options := [.primaryKey] },
    { name := "f_note", type := { dataType := .sized .varchar (some 20) }, options := [.null] }]

/-- The same columns where the names and the comments look like the ends of lines and of quotes. -/
def quotedEventsTable : Table where
  name := "`1\n\x7d\""
  columns := [
    { name := "f_url_id", type := { dataType := .sized .int none },
      options := [.comment "` /* \"", .primaryKey] },
    { name := "f_note", type := { dataType := .sized .varchar (some 20) },
      options := [.null, .comment "\x7d\n)"] }]
  options := [.comment "`\n*/ \x7b"]

/-- Options that give `quotedEventsTable` other types and other acronyms. -/
def quotedEventsOptions : Options where
  tablePrefix := "`"
  columnPrefix := "f_"
  nullStyle := .pointer
  acronyms := .ofList ["url"]

/-- A digit follows the prefix of the column's name. -/
def numberedTable : Table where
  name := "events"
  columns := [{ name := "f_1st", type := { dataType := .sized .int none } }]

theorem generates_eventsTable :
    (∃ m, generateTable { columnPrefix := "f_" } eventsTable = .ok m) ∧
      (∃ m, generateTable quotedEventsOptions quotedEventsTable = .ok m) ∧
      ¬ ∃ m, generateTable { columnPrefix := "f_" } numberedTable = .ok m := by
  have hevents : ∀ tag ∈ tableTags { columnPrefix := "f_" } eventsTable, Go.IsRaw tag := by
    decide +kernel
  have hnumbered : ∀ tag ∈ tableTags { columnPrefix := "f_" } numberedTable, Go.IsRaw tag := by
    decide +kernel
  have halike : Alike { columnPrefix := "f_" } quotedEventsOptions eventsTable quotedEventsTable :=
    ⟨by decide, rfl, rfl, rfl, rfl⟩
  obtain ⟨hiff, hsame⟩ := generates_iff (by decide) hevents
  have hok : ∃ m, generateTable { columnPrefix := "f_" } eventsTable = .ok m :=
    hiff.2 (by decide +kernel)
  refine ⟨hok, (hsame _ _ halike).2 hok, ?_⟩
  rw [(generates_iff (by decide) hnumbered).1]
  decide +kernel

end SchemaModels.Model
