import SchemaModels.Proofs.Model.Imports

/-!
# The columns of a table one by one

Of the primary keys known so far a column looks for its own name only (`columnSettings_congr`), and
the columns in front of it add no name but their own. So where the names are different, each column
leads to the field that it would lead to if it were the only one (`fieldsOf_eq_mapM`), and a table is
transformed exactly if each of its columns is, by itself (`structOf_by_columns`).
-/

namespace SchemaModels.Model

open Ddl (Column ColumnOption Table)

/-! ### What a column sees of the known keys -/

variable {keys keys' : TextSet}

theorem optionSettings_congr {name : Text} (h : name ∈ keys ↔ name ∈ keys')
    (os : List ColumnOption) :
    (optionSettings name keys os).1 = (optionSettings name keys' os).1 := by
  induction os generalizing keys keys' with
  | nil => rfl
  | cons o os ih =>
      cases o with
      | primaryKey =>
          have hinsert : name ∈ keys.insert name ↔ name ∈ keys'.insert name := by simp
          simp only [optionSettings, ih hinsert, h]
      | _ => simp only [optionSettings, ih h]

theorem columnSettings_congr {c : Column} (h : c.name ∈ keys ↔ c.name ∈ keys') (withType : Bool) :
    (columnSettings c keys withType).1 = (columnSettings c keys' withType).1 := by
  have hmarked : IsMarked keys c ↔ IsMarked keys' c := or_congr_left h
  rw [columnSettings_fst, columnSettings_fst, optionSettings_congr h]
  simp only [h, hmarked]

/-- The field of a column where some primary keys are known. -/
def fieldIn (o : Options) (table : Text) (keys : TextSet) (c : Column) :
    Except GenerateError (Go.Field × Go.FieldType) :=
  match fieldType? o c with
  | none => .error (.unsupportedType table c.name c.type.declaration)
  | some type => .ok (fieldOf o c (columnSettings c keys o.gormType).1 type, type)

variable {o : Options} {table : Text}

theorem fieldIn_congr {c : Column} (h : c.name ∈ keys ↔ c.name ∈ keys') :
    fieldIn o table keys c = fieldIn o table keys' c := by
  unfold fieldIn
  rw [columnSettings_congr h]

theorem eq_unsupportedType_of_fieldIn {c : Column} {e : GenerateError}
    (h : fieldIn o table keys c = .error e) :
    e = .unsupportedType table c.name c.type.declaration := by
  unfold fieldIn at h
  split at h
  · exact (Except.error.inj h).symm
  · cases h

/-! ### The fields of some columns -/

theorem fieldsOf_cons (c : Column) (cs : List Column) : fieldsOf o table keys (c :: cs) = do
    let p ← fieldIn o table keys c
    return p :: (← fieldsOf o table (optionSettings c.name keys c.options).2 cs) := by
  rw [fieldsOf, fieldIn]
  cases fieldType? o c <;> rfl

/-- Columns with different names have the fields that each of them has by itself. -/
theorem fieldsOf_eq_mapM {cs : List Column} (hnames : (cs.map (·.name)).Nodup)
    (hkeys : ∀ c ∈ cs, c.name ∈ keys ↔ c.name ∈ keys') :
    fieldsOf o table keys cs = cs.mapM (fieldIn o table keys') := by
  induction cs generalizing keys with
  | nil => rfl
  | cons c cs ih =>
      obtain ⟨hc, hcs⟩ := List.forall_mem_cons.1 hkeys
      rw [List.map_cons, List.nodup_cons] at hnames
      -- The keys that `c` adds have its name, which is not that of a later column.
      have hbehind : ∀ d ∈ cs,
          d.name ∈ (optionSettings c.name keys c.options).2 ↔ d.name ∈ keys' := by
        intro d hd
        have hne : d.name ≠ c.name := fun he => hnames.1 (he ▸ List.mem_map_of_mem hd)
        rw [mem_keys_optionSettings, hcs d hd]
        exact or_iff_left fun h => hne h.1
      rw [fieldsOf_cons, List.mapM_cons, fieldIn_congr hc, ih hnames.2 hbehind]

/-! ### Structs -/

/-- The struct of a table that has some fields. -/
def structWith (o : Options) (t : Table) (fields : List (Go.Field × Go.FieldType)) : Go.Struct :=
  let (stripped, hadPrefix) := stripTablePrefix o.tablePrefix t.name
  let name := Naming.camel o.acronyms stripped
  { name
    tableName := t.name
    comment := structComment name t
    fields := fields.map (·.1)
    hasTableName := hadPrefix || o.forceTableName || !Naming.isPlural t.name
    imports := importsOf (fields.map (·.2)) }

theorem structOf_eq (o : Options) (t : Table) : structOf o t =
    (fieldsOf o t.name (.ofList t.primaryKeyColumns) t.columns).map (structWith o t) := by
  unfold structOf
  cases fieldsOf o t.name (.ofList t.primaryKeyColumns) t.columns <;> rfl

/-- The table with one of its columns only. -/
def onlyColumn (t : Table) (c : Column) : Table := { t with columns := [c] }

/-- The field of a column in its table. -/
def fieldAlone (o : Options) (t : Table) (c : Column) :
    Except GenerateError (Go.Field × Go.FieldType) :=
  fieldIn o t.name (.ofList t.primaryKeyColumns) c

theorem structOf_onlyColumn (o : Options) (t : Table) (c : Column) :
    structOf o (onlyColumn t c) = (fieldAlone o t c).map fun p => structWith o t [p] := by
  have hkeys : (onlyColumn t c).primaryKeyColumns = t.primaryKeyColumns := rfl
  rw [structOf_eq, hkeys]
  change (fieldsOf o t.name _ [c]).map (structWith o t) = _
  rw [fieldsOf_cons, fieldAlone]
  cases fieldIn o t.name (.ofList t.primaryKeyColumns) c <;> rfl

theorem structOf_eq_mapM (o : Options) {t : Table} (hnames : (t.columns.map (·.name)).Nodup) :
    structOf o t = (t.columns.mapM (fieldAlone o t)).map (structWith o t) := by
  rw [structOf_eq, fieldsOf_eq_mapM hnames fun _ _ => Iff.rfl]
  rfl

theorem exists_structOf_onlyColumn_iff {t : Table} {c : Column} :
    (∃ s, structOf o (onlyColumn t c) = .ok s) ↔ ∃ p, fieldAlone o t c = .ok p := by
  rw [structOf_onlyColumn]
  cases fieldAlone o t c <;> simp [Except.map]

theorem structOf_onlyColumn_eq_error_iff {t : Table} {c : Column} {e : GenerateError} :
    structOf o (onlyColumn t c) = .error e ↔ fieldAlone o t c = .error e := by
  rw [structOf_onlyColumn, map_eq_error_iff]

theorem importsOf_eq_foldr (types : List Go.FieldType) :
    importsOf types = (types.map fun type => importsOf [type]).foldr TextSet.union .empty := by
  ext v
  rw [TextSet.mem_foldr_union, mem_importsOf]
  constructor
  · rintro ⟨type, htype, hpath⟩
    exact ⟨_, List.mem_map_of_mem htype, by simpa [mem_importsOf] using hpath⟩
  · rintro ⟨_, hset, hv⟩
    obtain ⟨type, htype, rfl⟩ := List.mem_map.1 hset
    exact ⟨type, htype, by simpa [mem_importsOf] using hv⟩

/-- The first column that fails by itself, with its error. -/
def FailsAtColumn (o : Options) (t : Table) (e : GenerateError) : Prop :=
  ∃ before c behind, t.columns = before ++ c :: behind ∧
    (∀ d ∈ before, ∃ s, structOf o (onlyColumn t d) = .ok s) ∧
    structOf o (onlyColumn t c) = .error e ∧
    e = .unsupportedType t.name c.name c.type.declaration

/-- What the structs of the single columns have in common with that of the whole table. -/
theorem joins_of_structOf {t : Table} (hnames : (t.columns.map (·.name)).Nodup) {s : Go.Struct}
    (h : structOf o t = .ok s) : ∃ parts : List Go.Struct,
      t.columns.map (fun c => structOf o (onlyColumn t c)) = parts.map .ok ∧
      s.fields = parts.flatMap (·.fields) ∧
      s.imports = (parts.map (·.imports)).foldr TextSet.union .empty := by
  rw [structOf_eq_mapM o hnames] at h
  obtain ⟨ps, hps, rfl⟩ := map_eq_ok_iff.1 h
  refine ⟨ps.map fun p => structWith o t [p], ?_, ?_, ?_⟩
  · have hmap := congrArg (List.map (Except.map fun p => structWith o t [p]))
      (mapM_eq_ok_iff.1 hps)
    simp only [List.map_map, Function.comp_def, ← structOf_onlyColumn] at hmap
    rw [hmap, List.map_map]
    rfl
  · rw [List.flatMap_map]
    exact List.map_eq_flatMap
  · change importsOf (ps.map (·.2)) = _
    rw [importsOf_eq_foldr, List.map_map, List.map_map]
    rfl

theorem structOf_eq_error_iff {t : Table} (hnames : (t.columns.map (·.name)).Nodup)
    (e : GenerateError) : structOf o t = .error e ↔ FailsAtColumn o t e := by
  rw [structOf_eq_mapM o hnames, map_eq_error_iff, mapM_eq_error_iff]
  unfold FailsAtColumn
  simp only [exists_structOf_onlyColumn_iff, structOf_onlyColumn_eq_error_iff]
  constructor
  · rintro ⟨before, c, behind, hcolumns, hbefore, hc⟩
    exact ⟨before, c, behind, hcolumns, hbefore, hc, eq_unsupportedType_of_fieldIn hc⟩
  · rintro ⟨before, c, behind, hcolumns, hbefore, hc, -⟩
    exact ⟨before, c, behind, hcolumns, hbefore, hc⟩

theorem exists_structOf_iff {t : Table} (hnames : (t.columns.map (·.name)).Nodup) :
    (∃ s, structOf o t = .ok s) ↔
      ∀ c ∈ t.columns, ∃ s, structOf o (onlyColumn t c) = .ok s := by
  constructor
  · rintro ⟨s, hs⟩ c hc
    obtain ⟨parts, hparts, -⟩ := joins_of_structOf hnames hs
    have hmem := List.mem_map_of_mem (f := fun c => structOf o (onlyColumn t c)) hc
    rw [hparts] at hmem
    obtain ⟨part, -, hpart⟩ := List.mem_map.1 hmem
    exact ⟨part, hpart.symm⟩
  · intro h
    cases hs : structOf o t with
    | ok s => exact ⟨s, rfl⟩
    | error e =>
        obtain ⟨before, c, behind, hcolumns, -, hc, -⟩ := (structOf_eq_error_iff hnames e).1 hs
        obtain ⟨s, hok⟩ := h c (by simp [hcolumns])
        rw [hc] at hok
        cases hok

/-- A table whose columns have different names is transformed exactly if it is with each of them
alone. Then its fields are those of the single columns in their order, and it imports what one of
them imports. Else its error is that of the first column which fails alone: that its type has no
counterpart. -/
theorem structOf_by_columns (o : Options) {t : Table}
    (hnames : (t.columns.map (·.name)).Nodup) :
    ((∃ s, structOf o t = .ok s) ↔
      ∀ c ∈ t.columns, ∃ s, structOf o (onlyColumn t c) = .ok s) ∧
    (∀ s, structOf o t = .ok s → ∃ parts : List Go.Struct,
      t.columns.map (fun c => structOf o (onlyColumn t c)) = parts.map .ok ∧
      s.fields = parts.flatMap (·.fields) ∧
      s.imports = (parts.map (·.imports)).foldr TextSet.union .empty) ∧
    ∀ e, structOf o t = .error e ↔ FailsAtColumn o t e :=
  ⟨exists_structOf_iff hnames, fun _ => joins_of_structOf hnames, structOf_eq_error_iff hnames⟩

/-- A key of two columns, of which one is a key by an option of its own as well. -/
def sharesTable : Table where
  name := "shares"
  columns := [
    { name := "holder", type := { dataType := .sized .bigint none }, options := [.notNull] },
    { name := "part", type := { dataType := .precise .decimal none none },
      options := [.primaryKey, .notNull] },
    { name := "since", type := { dataType := .plain .date }, options := [.null] }]
  constraints := [{ kind := .primaryKey, columns := ["part", "holder"] }]

/-- Behind the columns of `sharesTable` there are two whose types have no counterpart. -/
def unsupportedSharesTable : Table :=
  { sharesTable with columns := sharesTable.columns ++ [
      { name := "opening", type := { dataType := .sized .time none } },
      { name := "kind", type := { dataType := .enum ["a"] } }] }

theorem structOf_by_columns_of_sharesTable :
    (sharesTable.columns.map (·.name)).Nodup ∧
    (∃ s, structOf {} sharesTable = .ok s ∧ ∃ parts : List Go.Struct,
      sharesTable.columns.map (fun c => structOf {} (onlyColumn sharesTable c)) = parts.map .ok ∧
      s.fields = parts.flatMap (·.fields) ∧
      s.imports = (parts.map (·.imports)).foldr TextSet.union .empty) ∧
    (unsupportedSharesTable.columns.map (·.name)).Nodup ∧
    FailsAtColumn {} unsupportedSharesTable (.unsupportedType "shares" "opening" "time") := by
  have hnames : (sharesTable.columns.map (·.name)).Nodup := by decide
  have hnames' : (unsupportedSharesTable.columns.map (·.name)).Nodup := by decide
  have hok : (structOf {} sharesTable).toOption.isSome = true := by decide +kernel
  have herror : structOf {} unsupportedSharesTable =
      .error (.unsupportedType "shares" "opening" "time") := by decide +kernel
  obtain ⟨s, hs⟩ := Option.isSome_iff_exists.1 hok
  replace hs := eq_ok_of_toOption hs
  obtain ⟨-, hjoins, -⟩ := structOf_by_columns {} hnames
  obtain ⟨-, -, hfails⟩ := structOf_by_columns {} hnames'
  exact ⟨hnames, ⟨s, hs, hjoins s hs⟩, hnames', (hfails _).1 herror⟩

end SchemaModels.Model
