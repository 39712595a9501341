import SchemaModels.Proofs.Go.StructReading
import SchemaModels.Proofs.Model.Fields

/-!
# The text of a struct

The fields of a table that has been generated can be read back from its text. Names and types are
words whatever the table holds and comments stand on one line (`isRegular_of_structOf`), so only the
tags matter: the text gives one field for each column, with its name, its type and its tag, exactly
if no tag has a backquote where its line could end (`readFields_of_generateTable`).
-/

namespace SchemaModels.Model

open Ddl (Column Table)
open Go (isWordChar readFields ClosesEarly)

/-! ### Words -/

theorem all_capitalizeId {p : Char → Bool} (hp : p 'D' = true) {t : Text} (h : t.all p = true) :
    (Naming.capitalizeId t).all p = true := by
  fun_induction Naming.capitalizeId t with
  | case1 t ih => simp_all
  | case2 c t _ ih => simp_all
  | case3 => rfl

theorem all_capitalizeUrl {p : Char → Bool} (hr : p 'R' = true) (hl : p 'L' = true) {t : Text}
    (h : t.all p = true) : (Naming.capitalizeUrl t).all p = true := by
  fun_induction Naming.capitalizeUrl t with
  | case1 t ih => simp_all
  | case2 c t _ ih => simp_all
  | case3 => rfl

/-- A field's name consists of letters and digits. -/
theorem all_fieldName {p : Char → Bool} (hletter : ∀ c, Text.isLetter c = true → p c = true)
    (hdigit : ∀ c, c.isDigit = true → p c = true) (a : Naming.Acronyms) (column : Text) :
    (Naming.fieldName a column).all p = true := by
  have hcamel : (Naming.camel a column).all p = true := List.all_eq_true.2 fun c hc =>
    (Naming.mem_camel hc).elim (hletter c) (hdigit c)
  have hid := all_capitalizeId (hletter 'D' (by decide)) hcamel
  exact all_capitalizeUrl (hletter 'R' (by decide)) (hletter 'L' (by decide)) hid

theorem isWordChar_of_isLetter (c : Char) (h : Text.isLetter c = true) : isWordChar c = true := by
  simp [isWordChar, h]

theorem isWordChar_of_isDigit (c : Char) (h : c.isDigit = true) : isWordChar c = true := by
  simp [isWordChar, h]

theorem isWordChar_of_mem_camel {a : Naming.Acronyms} {name : Text} {c : Char}
    (h : c ∈ Naming.camel a name) : isWordChar c = true :=
  (Naming.mem_camel h).elim (isWordChar_of_isLetter c) (isWordChar_of_isDigit c)

/-- The type of a field is a word. -/
theorem all_text_of_fieldType? {t : Ddl.FieldType} {style : NullStyle} {judgeUnsigned : Bool}
    {type : Go.FieldType} (h : Go.fieldType? t style judgeUnsigned = some type) :
    type.text.all isWordChar = true ∧ type.text ≠ [] := by
  obtain ⟨k, -, rfl⟩ := Option.map_eq_some_iff.1 h
  generalize (judgeUnsigned && (t.unsigned || t.zerofill)) = unsigned
  cases style <;> cases k <;> cases unsigned <;> decide

/-! ### Comments -/

theorem newline_not_mem_withoutNewlines (t : Text) : '\n' ∉ withoutNewlines t := by
  simp [withoutNewlines]

theorem newline_not_mem_columnComment {c : Column} {comment : Text}
    (h : columnComment c = some comment) : '\n' ∉ comment := by
  have hmem := List.mem_of_getLast? h
  obtain ⟨o, -, ho⟩ := List.mem_filterMap.1 hmem
  split at ho
  · cases ho
    exact newline_not_mem_withoutNewlines _
  · cases ho

/-! ### Structs -/

theorem isRegular_of_isFieldOf {o : Options} {keys : TextSet} {c : Column} {type : Go.FieldType}
    {f : Go.Field} (h : IsFieldOf o keys c type f) : f.IsRegular := by
  obtain ⟨htype, hne⟩ := all_text_of_fieldType? h.fieldType?_eq
  exact {
    name := h.name ▸ all_fieldName isWordChar_of_isLetter isWordChar_of_isDigit _ _
    type := h.type ▸ htype
    type_ne := h.type ▸ hne
    comment := fun _ hc => newline_not_mem_columnComment (h.comment ▸ hc) }

theorem newline_not_mem_structComment {name : Text} (hname : '\n' ∉ name) (t : Table) :
    '\n' ∉ structComment name t := by
  have hblank : '\n' ∉ (" " : Text) := by decide
  have hdot : '\n' ∉ (" ." : Text) := by decide
  unfold structComment
  split
  · rename_i comment _
    rw [List.mem_append, List.mem_append]
    exact fun h => h.elim (fun h => h.elim hname hblank) (newline_not_mem_withoutNewlines comment)
  · rw [List.mem_append]
    exact fun h => h.elim hname hdot

/-- Names and types in the struct of a table are words, and comments stand on one line. -/
theorem isRegular_of_structOf {o : Options} {t : Table} {s : Go.Struct}
    (h : structOf o t = .ok s) : s.IsRegular := by
  obtain ⟨hlength, hget⟩ := fields_of_structOf h
  obtain ⟨ps, -, hs⟩ := exists_of_bind_ok h
  have hname : s.name.all isWordChar = true := by
    cases hs
    exact List.all_eq_true.2 fun _ => isWordChar_of_mem_camel
  have hcomment : s.comment = structComment s.name t := by
    cases hs
    rfl
  refine ⟨hname, ?_, fun f hf => ?_⟩
  · rw [hcomment]
    exact newline_not_mem_structComment (Go.newline_not_mem_word hname) t
  · obtain ⟨i, hi, hfi⟩ := List.mem_iff_getElem.1 hf
    have hc : t.columns[i]? = some t.columns[i] := List.getElem?_eq_getElem (hlength ▸ hi)
    obtain ⟨g, type, hg, hfield⟩ := hget i _ hc
    rw [List.getElem?_eq_getElem hi, hfi] at hg
    cases hg
    exact isRegular_of_isFieldOf hfield

/-- A table that generates has one field for each column, in order, with the name, the type and the
tag that the column calls for. They are what its struct says, read line by line, exactly if no tag
has a backquote where its line could end. -/
theorem readFields_of_generateTable {o : Options} {t : Table} {m : Module}
    (h : generateTable o t = .ok m) :
    ∃ s text, structOf o t = .ok s ∧ m.structs = [text] ∧ s.fields.length = t.columns.length ∧
      (∀ (i : Nat) c, t.columns[i]? = some c → ∃ f type, s.fields[i]? = some f ∧
        IsFieldOf o (keysAfter (.ofList t.primaryKeyColumns) (t.columns.take i)) c type f) ∧
      (readFields text = some (s.fields.map Go.Field.reading) ↔
        ∀ f ∈ s.fields, ¬ ClosesEarly f.tag) := by
  obtain ⟨⟨text, imports⟩, hgenerate, h⟩ := exists_of_bind_ok h
  obtain ⟨s, hs, hgenerate⟩ := exists_of_bind_ok hgenerate
  obtain ⟨text', hrender, hgenerate⟩ := exists_of_bind_ok hgenerate
  cases h
  cases hgenerate
  obtain ⟨hlength, hget⟩ := fields_of_structOf hs
  exact ⟨s, text, hs, rfl, hlength, hget,
    Go.Struct.readFields_eq_iff (isRegular_of_structOf hs) (mapError_eq_ok_iff.1 hrender)⟩

/-- A table whose comments, and the default of whose column, look like the end of a tag. -/
def notesTable : Table where
  name := "notes"
  columns := [
    { name := "id", type := { dataType := .sized .int none },
      options := [.primaryKey, .comment "`json:\"id\"` // key"] },
    { name := "body", type := { dataType := .sized .varchar (some 20) },
      options := [.default (.literal (.string "a // \x7bb\x7d")), .comment "\x7d"] }]
  options := [.comment "type Notes struct \x7b"]

def notesFields : List Go.FieldReading := [
  ⟨"ID", "int32", "gorm:\"column:id;primary_key\""⟩,
  ⟨"Body", "string", "gorm:\"column:body;default:a // \x7bb\x7d\""⟩]

theorem readFields_of_notesTable : ∃ m text, generateTable {} notesTable = .ok m ∧
    m.structs = [text] ∧ readFields text = some notesFields := by
  have hok : (generateTable {} notesTable).isOk = true := by decide +kernel
  have hfields : ((structOf {} notesTable).toOption.map fun s => s.fields.map Go.Field.reading) =
      some notesFields := by decide +kernel
  have hraw : ∀ r ∈ notesFields, Go.IsRaw r.tag := by decide
  cases hm : generateTable {} notesTable with
  | error e =>
      rw [hm] at hok
      cases hok
  | ok m =>
      obtain ⟨s, text, hs, htext, -, -, hread⟩ := readFields_of_generateTable hm
      rw [hs] at hfields
      have hreadings : s.fields.map Go.Field.reading = notesFields := Option.some.inj hfields
      refine ⟨m, text, rfl, htext, hreadings ▸ hread.2 fun f hf => ?_⟩
      have hmem : f.reading ∈ notesFields := hreadings ▸ List.mem_map_of_mem hf
      exact (hraw _ hmem).not_closesEarly

/-- A table whose column closes the quotes around its tag and opens others on the next line. -/
def brokenTagTable : Table where
  name := "users"
  columns := [{ name := "a` //\nEvil string `x", type := { dataType := .sized .int none } }]

theorem field_in_name_is_read :
    ((generateTable {} brokenTagTable).toOption.map fun m => m.structs.map readFields) =
        some [some [⟨"AEvilStringx", "int32", "gorm:\"column:a"⟩, ⟨"Evil", "string", "x\""⟩]] ∧
      ((structOf {} brokenTagTable).toOption.map fun s => s.fields.map Go.Field.reading) =
        some [⟨"AEvilStringx", "int32", "gorm:\"column:a` //\nEvil string `x\""⟩] := by
  constructor <;> decide +kernel

end SchemaModels.Model
