import SchemaModels.Model.Module
import SchemaModels.Proofs.Model.Settings
import SchemaModels.Proofs.Results

/-!
# The fields of a struct

What a transformed table's fields have to do with its columns (`fields_of_structOf`): one field for
each column, in order, with the tag that the column has where the primary keys known before it are
those of the table and those of the columns in front of it (`mem_keysAfter`).
-/

namespace SchemaModels.Model

open Ddl (Column Table)

/-- The primary keys known after some columns. -/
def keysAfter : TextSet → List Column → TextSet
  | keys, [] => keys
  | keys, c :: cs => keysAfter (optionSettings c.name keys c.options).2 cs

theorem mem_keysAfter {v : Text} {keys : TextSet} {cs : List Column} :
    v ∈ keysAfter keys cs ↔ v ∈ keys ∨ ∃ c ∈ cs, v = c.name ∧ .primaryKey ∈ c.options := by
  induction cs generalizing keys with
  | nil => simp [keysAfter]
  | cons c cs ih => simp [keysAfter, ih, mem_keys_optionSettings, or_assoc]

/-- The tag of a column where some primary keys are known. -/
def columnTag (c : Column) (keys : TextSet) (withJson withType : Bool) : Text :=
  joinTags (tagPairs c (columnSettings c keys withType).1 withJson)

/-- The field is the one that the column calls for. -/
structure IsFieldOf (o : Options) (keys : TextSet) (c : Column) (type : Go.FieldType)
    (f : Go.Field) : Prop where
  fieldType?_eq : fieldType? o c = some type
  name : f.name = Naming.fieldName o.acronyms (stripColumnPrefix o.columnPrefix c.name)
  type : f.type = type.text
  tag : f.tag = columnTag c keys o.jsonTag o.gormType
  comment : f.comment = columnComment c

theorem getElem?_fieldsOf {o : Options} {table : Text} {keys : TextSet} {cs : List Column}
    {ps : List (Go.Field × Go.FieldType)} (h : fieldsOf o table keys cs = .ok ps) :
    ps.length = cs.length ∧ ∀ (i : Nat) c, cs[i]? = some c → ∃ f type,
      ps[i]? = some (f, type) ∧ IsFieldOf o (keysAfter keys (cs.take i)) c type f := by
  induction cs generalizing keys ps with
  | nil =>
      cases h
      exact ⟨rfl, nofun⟩
  | cons c cs ih =>
      unfold fieldsOf at h
      dsimp only at h
      cases htype : fieldType? o c with
      | none => simp [htype] at h
      | some type =>
          rw [htype] at h
          obtain ⟨qs, hqs, h⟩ := exists_of_bind_ok h
          cases h
          obtain ⟨hlength, hget⟩ := ih hqs
          refine ⟨by simp [hlength], fun i d hd => ?_⟩
          cases i with
          | zero =>
              cases hd
              exact ⟨_, type, rfl, htype, rfl, rfl, rfl, rfl⟩
          | succ i =>
              obtain ⟨f, type', hf, hfield⟩ := hget i d hd
              exact ⟨f, type', hf, hfield⟩

/-- A transformed table has one field for each of its columns, in their order. -/
theorem fields_of_structOf {o : Options} {t : Table} {s : Go.Struct} (h : structOf o t = .ok s) :
    s.fields.length = t.columns.length ∧ ∀ (i : Nat) c, t.columns[i]? = some c → ∃ f type,
      s.fields[i]? = some f ∧
        IsFieldOf o (keysAfter (.ofList t.primaryKeyColumns) (t.columns.take i)) c type f := by
  obtain ⟨ps, hps, h⟩ := exists_of_bind_ok h
  cases h
  obtain ⟨hlength, hget⟩ := getElem?_fieldsOf hps
  refine ⟨by simp [hlength], fun i c hc => ?_⟩
  obtain ⟨f, type, hf, hfield⟩ := hget i c hc
  exact ⟨f, type, by simp [hf], hfield⟩

end SchemaModels.Model
