import SchemaModels.Proofs.Go.StructLines
import SchemaModels.Proofs.Model.Success

/-!
# Comments and code

Comments go into the text of a struct, into its first line and behind the tags of its fields, and
nowhere else. Two tables that differ in their comments lead to structs that do
(`structOf_sameButComments`), and where no tag holds a backquote, both of these are laid out or
neither is, with the same lines but for those comments (`code_of_sameButComments`).
-/

namespace SchemaModels

/-! ### Structs without comments -/

namespace Go

def Field.withoutComment (f : Field) : Field := { f with comment := none }

namespace Struct

def withoutComments (s : Struct) : Struct :=
  { s with comment := [], fields := s.fields.map Field.withoutComment }

/-- Where a struct is written does not depend on its comments. -/
theorem isWrittenIn_withoutComments {s : Struct} {text : Text} :
    s.withoutComments.IsWrittenIn text ↔ s.IsWrittenIn text := by
  have hlines : codeLines s.withoutComments.fields = codeLines s.fields := by
    unfold codeLines withoutComments
    simp only [List.map_map]
    rfl
  have hlength : s.withoutComments.fields.length = s.fields.length := List.length_map _
  unfold IsWrittenIn
  rw [hlines, hlength]
  rfl

/-- A struct whose tags hold no backquotes is laid out only if they hold no line breaks either. -/
theorem isRaw_of_render {s : Struct} (hs : s.IsRegular) (htags : ∀ f ∈ s.fields, '\x60' ∉ f.tag)
    {text : Text} (h : s.render = .ok text) {f : Field} (hf : f ∈ s.fields) : IsRaw f.tag := by
  have hopen : ∀ g ∈ s.fields, ¬ ClosesEarly g.tag := by
    rintro g hg ⟨before, behind, htag, -⟩
    exact htags g hg (htag ▸ List.mem_append_right before List.mem_cons_self)
  have hread := (readFields_eq_iff hs h).2 hopen
  have hmem : f.reading ∈ s.fields.map Field.reading := List.mem_map_of_mem hf
  exact isRaw_of_readFields hread hmem

theorem exists_render_iff_raw {s : Struct} (hs : s.IsRegular)
    (htags : ∀ f ∈ s.fields, '\x60' ∉ f.tag) : (∃ text, s.render = .ok text) ↔
      ∀ f ∈ s.fields, IsRaw f.tag ∧ Format.isIdentifier f.name = true := by
  constructor
  · rintro ⟨text, h⟩ f hf
    have hraw := fun g hg => isRaw_of_render hs htags h (f := g) hg
    exact ⟨hraw f hf, (exists_render_iff hs hraw).1 ⟨text, h⟩ f hf⟩
  · intro h
    exact (exists_render_iff hs fun f hf => (h f hf).1).2 fun f hf => (h f hf).2

/-- What is said of the names and the tags of fields holds of both structs or of neither. -/
theorem forall_fields_iff {s s' : Struct} (h : s'.withoutComments = s.withoutComments)
    (p : Text → Text → Prop) :
    (∀ f ∈ s'.fields, p f.name f.tag) ↔ ∀ f ∈ s.fields, p f.name f.tag := by
  have hfields : s'.fields.map Field.withoutComment = s.fields.map Field.withoutComment :=
    congrArg Struct.fields h
  have hmap : ∀ fs : List Field, (∀ f ∈ fs, p f.name f.tag) ↔
      ∀ f ∈ fs.map Field.withoutComment, p f.name f.tag := by
    intro fs
    simp [Field.withoutComment]
  rw [hmap, hfields, ← hmap]

/-- Of two structs that differ in their comments, both are laid out or neither is. -/
theorem exists_render_congr {s s' : Struct} (hs : s.IsRegular) (hs' : s'.IsRegular)
    (htags : ∀ f ∈ s.fields, '\x60' ∉ f.tag) (h : s'.withoutComments = s.withoutComments) :
    (∃ text, s'.render = .ok text) ↔ ∃ text, s.render = .ok text := by
  rw [exists_render_iff_raw hs' ((forall_fields_iff h fun _ tag => '\x60' ∉ tag).2 htags),
    exists_render_iff_raw hs htags]
  exact forall_fields_iff h fun name tag => IsRaw tag ∧ Format.isIdentifier name = true

end Struct

end Go

namespace Model

open Ddl (Column ColumnOption Table TableOption)

/-! ### Tables without comments -/

def isTableComment : TableOption → Bool
  | .comment _ => true
  | _ => false

def tableWithoutComments (t : Table) : Table :=
  { t with
    columns := t.columns.map withoutComments
    options := t.options.filter (!isTableComment ·) }

/-- The tables differ in the texts of their comments, and in whether there are any, at most. -/
def SameButComments (t t' : Table) : Prop := tableWithoutComments t' = tableWithoutComments t

instance (t t' : Table) : Decidable (SameButComments t t') := inferInstanceAs (Decidable (_ = _))

theorem any_withoutComments {p : ColumnOption → Bool} (hp : ∀ text, p (.comment text) = false)
    (c : Column) : (withoutComments c).options.any p = c.options.any p := by
  unfold withoutComments
  rw [List.any_filter]
  refine List.any_congr rfl fun o => ?_
  cases o <;> simp [isComment, hp]

theorem isNullable_withoutComments (c : Column) : (withoutComments c).isNullable = c.isNullable :=
  any_withoutComments (fun _ => rfl) c

theorem isNotNull_withoutComments (c : Column) : (withoutComments c).isNotNull = c.isNotNull :=
  any_withoutComments (fun _ => rfl) c

theorem columnSettings_withoutComments (c : Column) (keys : TextSet) (withType : Bool) :
    columnSettings (withoutComments c) keys withType = columnSettings c keys withType := by
  have hoptions : optionSettings (withoutComments c).name keys (withoutComments c).options =
      optionSettings c.name keys c.options := optionSettings_filter c.name keys c.options
  unfold columnSettings
  rw [hoptions, isNotNull_withoutComments]
  rfl

theorem columnComment_withoutComments (c : Column) : columnComment (withoutComments c) = none := by
  unfold columnComment
  refine (congrArg List.getLast? (List.filterMap_eq_nil_iff.2 fun o ho => ?_)).trans rfl
  have hcomment := (List.mem_filter.1 ho).2
  cases o with
  | comment text => cases hcomment
  | _ => rfl

theorem fieldOf_withoutComments (o : Options) (c : Column) (settings : List Setting)
    (type : Go.FieldType) :
    fieldOf o (withoutComments c) settings type = (fieldOf o c settings type).withoutComment := by
  unfold fieldOf
  rw [columnComment_withoutComments]
  rfl

theorem fieldsOf_withoutComments (o : Options) (table : Text) (keys : TextSet) (cs : List Column) :
    fieldsOf o table keys (cs.map withoutComments) =
      (fieldsOf o table keys cs).map (List.map fun p => (p.1.withoutComment, p.2)) := by
  induction cs generalizing keys with
  | nil => rfl
  | cons c cs ih =>
      have htype : fieldType? o (withoutComments c) = fieldType? o c := by
        unfold fieldType?
        rw [isNullable_withoutComments]
        rfl
      rw [List.map_cons, fieldsOf, fieldsOf, columnSettings_withoutComments, htype]
      cases fieldType? o c with
      | none => rfl
      | some type =>
          dsimp only
          rw [ih, fieldOf_withoutComments]
          cases fieldsOf o table (columnSettings c keys o.gormType).2 cs <;> rfl

/-- The struct of a table without its comments is that of the table without its comments. -/
theorem structOf_withoutComments (o : Options) (t : Table) :
    (structOf o (tableWithoutComments t)).map Go.Struct.withoutComments =
      (structOf o t).map Go.Struct.withoutComments := by
  have hkeys : (tableWithoutComments t).primaryKeyColumns = t.primaryKeyColumns := rfl
  have hcolumns : (tableWithoutComments t).columns = t.columns.map withoutComments := rfl
  have hname : (tableWithoutComments t).name = t.name := rfl
  unfold structOf
  rw [hkeys, hcolumns, hname, fieldsOf_withoutComments]
  cases fieldsOf o t.name (.ofList t.primaryKeyColumns) t.columns with
  | error e => rfl
  | ok ps =>
      have himports : (ps.map fun p => (p.1.withoutComment, p.2)).map (·.2) = ps.map (·.2) := by
        rw [List.map_map]
        rfl
      have hfields : ((ps.map fun p => (p.1.withoutComment, p.2)).map (·.1)).map
          Go.Field.withoutComment = (ps.map (·.1)).map Go.Field.withoutComment := by
        simp only [List.map_map]
        rfl
      change Except.ok (Go.Struct.mk _ _ _ _ _ (importsOf _)) = Except.ok (Go.Struct.mk _ _ _ _ _ _)
      rw [himports, hfields]

theorem structOf_sameButComments (o : Options) {t t' : Table} (h : SameButComments t t') :
    (structOf o t').map Go.Struct.withoutComments =
      (structOf o t).map Go.Struct.withoutComments := by
  rw [← structOf_withoutComments, h, structOf_withoutComments]

/-! ### Modules -/

theorem tableTags_of_structOf {o : Options} {t : Table} {s : Go.Struct} (h : structOf o t = .ok s) :
    s.fields.map (·.tag) = tableTags o t := by
  have hsupported : ∀ c ∈ t.columns, IsSupported c := by
    intro c hc
    obtain ⟨i, hi, rfl⟩ := List.mem_iff_getElem.1 hc
    obtain ⟨f, type, -, hfield⟩ := (fields_of_structOf h).2 i _ (List.getElem?_eq_getElem hi)
    obtain ⟨k, hk, -⟩ := Option.map_eq_some_iff.1 hfield.fieldType?_eq
    exact Option.isSome_iff_exists.2 ⟨k, hk⟩
  obtain ⟨s', hs', htags, -⟩ := exists_structOf o hsupported
  rw [h] at hs'
  cases hs'
  exact htags

/-- What a table that generates was made to. -/
theorem of_generateTable {o : Options} {t : Table} {s : Go.Struct} {m : Module}
    (hs : structOf o t = .ok s) (h : generateTable o t = .ok m) :
    m.package = o.package ∧ m.imports = s.imports ∧ ∃ text, m.structs = [text] ∧
      s.render = .ok text := by
  obtain ⟨part, hpart, h⟩ := exists_of_bind_ok h
  obtain ⟨s', hs', hpart⟩ := exists_of_bind_ok hpart
  obtain ⟨text, htext, hpart⟩ := exists_of_bind_ok hpart
  rw [hs] at hs'
  cases hs'
  cases hpart
  cases h
  exact ⟨rfl, rfl, text, rfl, mapError_eq_ok_iff.1 htext⟩

/-- A table generates with the error with which it has no struct. -/
theorem generateTable_of_structOf_error {o : Options} {t : Table} {e : GenerateError}
    (h : structOf o t = .error e) : generateTable o t = .error e := by
  unfold generateTable generateStruct
  rw [h]
  rfl

/-- A table that has a struct does not fail for a type. -/
theorem ne_unsupportedType {o : Options} {t : Table} {s : Go.Struct} (hs : structOf o t = .ok s)
    (table column declaration : Text) :
    generateTable o t ≠ .error (.unsupportedType table column declaration) := by
  unfold generateTable generateStruct renderStruct
  rw [hs]
  intro h
  change ((s.render.mapError _ >>= _) >>= _) = _ at h
  cases hrender : s.render with
  | error e =>
      rw [hrender] at h
      cases h
  | ok text =>
      rw [hrender] at h
      cases h

/-- A table that generates is written in the one struct of its module. -/
theorem isWrittenIn_of_generateTable {o : Options} {t : Table} {s : Go.Struct} {m : Module}
    (hs : structOf o t = .ok s) (hback : ∀ f ∈ s.fields, '\x60' ∉ f.tag)
    (h : generateTable o t = .ok m) : m.package = o.package ∧ m.imports = s.imports ∧
      ∃ text, m.structs = [text] ∧ s.IsWrittenIn text := by
  obtain ⟨hpackage, himports, text, htext, hrender⟩ := of_generateTable hs h
  have hregular := isRegular_of_structOf hs
  have hraw : ∀ f ∈ s.fields, Go.IsRaw f.tag := fun f =>
    Go.Struct.isRaw_of_render hregular hback hrender
  exact ⟨hpackage, himports, text, htext, Go.Struct.isWrittenIn_of_render hregular hraw hrender⟩

/-- Comments have no part in the code of a table's struct. Of two tables that differ in comments
only, and whose tags hold no backquotes, both generate or neither does, and a type without a
counterpart fails both in the same way. Where they generate, the modules have the same imports, and
the same struct is written in both texts: the names, the types and the tags of its fields stand with
the same blanks between them, and every other line is the same but for the comment in front. -/
theorem code_of_sameButComments (o : Options) {t t' : Table} (h : SameButComments t t')
    (htags : ∀ tag ∈ tableTags o t, '\x60' ∉ tag) :
    ((∃ m, generateTable o t = .ok m) ↔ ∃ m', generateTable o t' = .ok m') ∧
    (∀ table column declaration,
      generateTable o t = .error (.unsupportedType table column declaration) ↔
        generateTable o t' = .error (.unsupportedType table column declaration)) ∧
    ∀ m m', generateTable o t = .ok m → generateTable o t' = .ok m' →
      m'.package = m.package ∧ m'.imports = m.imports ∧
      ∃ s text text', structOf o t = .ok s ∧ m.structs = [text] ∧ m'.structs = [text'] ∧
        s.IsWrittenIn text ∧ s.IsWrittenIn text' := by
  have hstructs := structOf_sameButComments o h
  cases hs : structOf o t with
  | error e =>
      rw [hs] at hstructs
      cases hs' : structOf o t' with
      | ok s' =>
          rw [hs'] at hstructs
          cases hstructs
      | error e' =>
          rw [hs'] at hstructs
          cases hstructs
          rw [generateTable_of_structOf_error hs, generateTable_of_structOf_error hs']
          exact ⟨Iff.rfl, fun _ _ _ => Iff.rfl, nofun⟩
  | ok s =>
      rw [hs] at hstructs
      obtain ⟨s', hs', hbare⟩ := map_eq_ok_iff.1 hstructs
      have hregular := isRegular_of_structOf hs
      have hregular' := isRegular_of_structOf hs'
      have hback : ∀ f ∈ s.fields, '\x60' ∉ f.tag := fun f hf =>
        htags f.tag (tableTags_of_structOf hs ▸ List.mem_map_of_mem hf)
      have hback' : ∀ f ∈ s'.fields, '\x60' ∉ f.tag :=
        (Go.Struct.forall_fields_iff hbare fun _ tag => '\x60' ∉ tag).2 hback
      refine ⟨?_, fun table column declaration => ?_, fun m m' hm hm' => ?_⟩
      · rw [exists_generateTable_iff hs, exists_generateTable_iff hs']
        exact (Go.Struct.exists_render_congr hregular hregular' hback hbare).symm
      · exact iff_of_false (ne_unsupportedType hs _ _ _) (ne_unsupportedType hs' _ _ _)
      · obtain ⟨hpackage, himports, text, htext, hwritten⟩ :=
          isWrittenIn_of_generateTable hs hback hm
        obtain ⟨hpackage', himports', text', htext', hwritten'⟩ :=
          isWrittenIn_of_generateTable hs' hback' hm'
        rw [← Go.Struct.isWrittenIn_withoutComments, hbare,
          Go.Struct.isWrittenIn_withoutComments] at hwritten'
        have hsame : s'.withoutComments.imports = s.withoutComments.imports := by rw [hbare]
        exact ⟨hpackage'.trans hpackage.symm, (himports'.trans hsame).trans himports.symm,
          s, text, text', rfl, htext, htext', hwritten, hwritten'⟩

/-- The columns of `notesTable` with other comments, and the table with none. -/
def plainNotesTable : Table where
  name := "notes"
  columns := [
    { name := "id", type := { dataType := .sized .int none }, options := [.primaryKey] },
    { name := "body", type := { dataType := .sized .varchar (some 20) },
      options := [.comment "/*", .default (.literal (.string "a // \x7bb\x7d")), .comment "\n"] }]

/-- Quotes, brackets and the beginnings of comments in its comments do not keep the table from
having the code that it has without them. -/
theorem code_of_notesTable : ∃ m m', generateTable {} notesTable = .ok m ∧
    generateTable {} plainNotesTable = .ok m' ∧ m'.imports = m.imports ∧ m'.structs ≠ m.structs ∧
    ∃ s text text', structOf {} notesTable = .ok s ∧ m.structs = [text] ∧ m'.structs = [text'] ∧
      s.IsWrittenIn text ∧ s.IsWrittenIn text' := by
  have hsame : SameButComments notesTable plainNotesTable := by decide
  have htags : ∀ tag ∈ tableTags {} notesTable, '\x60' ∉ tag := by decide +kernel
  have hdiffer : ((generateTable {} notesTable).toOption.map Module.structs) ≠
      (generateTable {} plainNotesTable).toOption.map Module.structs := by decide +kernel
  have hok : (generateTable {} notesTable).isOk = true := by decide +kernel
  obtain ⟨hgenerate, -, hcode⟩ := code_of_sameButComments {} hsame htags
  cases hm : generateTable {} notesTable with
  | error e =>
      rw [hm] at hok
      cases hok
  | ok m =>
      obtain ⟨m', hm'⟩ := hgenerate.1 ⟨m, hm⟩
      obtain ⟨-, himports, hwritten⟩ := hcode m m' hm hm'
      rw [hm, hm'] at hdiffer
      exact ⟨m, m', rfl, hm', himports, fun h => hdiffer (congrArg some h.symm), hwritten⟩

end Model

end SchemaModels
