import SchemaModels.Proofs.Model.Fields

/-!
# The imports of a module

A field's type names the package that it comes from, and the last element of an import path is the
name under which the package is known. The paths that a struct asks for are those of the packages
that its field types name (`mem_imports_of_structOf`), and a module asks for what its structs ask
for, so that it has no import too few and none too many (`imports_are_exact`).
-/

namespace SchemaModels

/-! ### Sets of texts -/

theorem TextSet.mem_foldr_union {sets : List TextSet} {v : Text} :
    v ∈ sets.foldr TextSet.union .empty ↔ ∃ s ∈ sets, v ∈ s := by
  induction sets with
  | nil => simp
  | cons s sets ih => simp [ih]

/-! ### Packages -/

namespace Go

/-- The last element of a path. -/
def lastElement (path : Text) : Text := (Text.splitOn '/' path).getLastD []

/-- The name that qualifies a type, which may be a pointer. -/
def qualifier? (type : Text) : Option Text :=
  let t := (Text.after? "*" type).getD type
  if '.' ∈ t then some (t.takeWhile (· ≠ '.')) else none

theorem lastElement_path (p : Package) : lastElement p.path = p.name := by
  cases p <;> decide

theorem name_injective {p q : Package} (h : p.name = q.name) : p = q := by
  revert h
  cases p <;> cases q <;> decide

theorem qualifier?_text {t : Ddl.FieldType} {style : Model.NullStyle} {judgeUnsigned : Bool}
    {type : FieldType} (h : fieldType? t style judgeUnsigned = some type) :
    qualifier? type.text = type.package.map Package.name := by
  obtain ⟨k, -, rfl⟩ := Option.map_eq_some_iff.1 h
  generalize (judgeUnsigned && (t.unsigned || t.zerofill)) = unsigned
  cases style <;> cases k <;> cases unsigned <;> decide

end Go

namespace Model

open Ddl (Statement Table)

/-! ### Structs -/

theorem mem_importsOf {types : List Go.FieldType} {p : Text} : p ∈ importsOf types ↔
    ∃ type ∈ types, ∃ k, type.package = some k ∧ k.path = p := by
  simp [importsOf]

/-- A field's type is qualified by the name of the package that it comes from. -/
theorem qualifier?_of_fieldsOf {o : Options} {table : Text} {keys : TextSet}
    {cs : List Ddl.Column} {ps : List (Go.Field × Go.FieldType)}
    (h : fieldsOf o table keys cs = .ok ps) {q : Go.Field × Go.FieldType} (hq : q ∈ ps) :
    Go.qualifier? q.1.type = q.2.package.map Go.Package.name := by
  obtain ⟨hlength, hget⟩ := getElem?_fieldsOf h
  obtain ⟨i, hi, rfl⟩ := List.mem_iff_getElem.1 hq
  obtain ⟨f, type, hf, hfield⟩ := hget i _ (List.getElem?_eq_getElem (hlength ▸ hi))
  rw [List.getElem?_eq_getElem hi] at hf
  rw [Option.some.inj hf, hfield.type]
  exact Go.qualifier?_text hfield.fieldType?_eq

/-- The packages whose names qualify the field types of a struct are those that it imports. -/
theorem mem_imports_of_structOf {o : Options} {t : Table} {s : Go.Struct}
    (h : structOf o t = .ok s) {p : Text} : p ∈ s.imports ↔
      ∃ k : Go.Package, p = k.path ∧ ∃ f ∈ s.fields, Go.qualifier? f.type = some k.name := by
  obtain ⟨ps, hps, h⟩ := exists_of_bind_ok h
  cases h
  rw [mem_importsOf]
  constructor
  · rintro ⟨type, htype, k, hk, rfl⟩
    obtain ⟨q, hq, rfl⟩ := List.mem_map.1 htype
    refine ⟨k, rfl, q.1, List.mem_map_of_mem hq, ?_⟩
    rw [qualifier?_of_fieldsOf hps hq, hk]
    rfl
  · rintro ⟨k, rfl, f, hf, hqualifier⟩
    obtain ⟨q, hq, rfl⟩ := List.mem_map.1 hf
    rw [qualifier?_of_fieldsOf hps hq] at hqualifier
    obtain ⟨k', hk', hname⟩ := Option.map_eq_some_iff.1 hqualifier
    exact ⟨q.2, List.mem_map_of_mem hq, k, Go.name_injective hname ▸ hk', rfl⟩

/-- Nothing but the name of a package qualifies the type of a field. -/
theorem exists_package_of_structOf {o : Options} {t : Table} {s : Go.Struct}
    (h : structOf o t = .ok s) {f : Go.Field} (hf : f ∈ s.fields) {name : Text}
    (hname : Go.qualifier? f.type = some name) : ∃ k : Go.Package, name = k.name := by
  obtain ⟨ps, hps, h⟩ := exists_of_bind_ok h
  cases h
  obtain ⟨q, hq, rfl⟩ := List.mem_map.1 hf
  rw [qualifier?_of_fieldsOf hps hq] at hname
  obtain ⟨k, -, rfl⟩ := Option.map_eq_some_iff.1 hname
  exact ⟨k, rfl⟩

/-! ### Modules -/

/-- The tables are transformed, and then laid out, each by itself. -/
theorem of_mapM_generateStruct {o : Options} {ts : List Table} {parts : List (Text × TextSet)}
    (h : ts.mapM (generateStruct o) = .ok parts) : ∃ structs, ts.mapM (structOf o) = .ok structs ∧
      structs.mapM renderStruct = .ok (parts.map (·.1)) ∧
      parts.map (·.2) = structs.map (·.imports) := by
  induction ts generalizing parts with
  | nil =>
      cases h
      exact ⟨[], rfl, rfl, rfl⟩
  | cons t ts ih =>
      rw [List.mapM_cons] at h
      obtain ⟨part, hpart, h⟩ := exists_of_bind_ok h
      obtain ⟨parts', hparts, h⟩ := exists_of_bind_ok h
      cases h
      obtain ⟨s, hs, hpart⟩ := exists_of_bind_ok hpart
      obtain ⟨text, htext, hpart⟩ := exists_of_bind_ok hpart
      cases hpart
      obtain ⟨structs, hstructs, htexts, himports⟩ := ih hparts
      refine ⟨s :: structs, ?_, ?_, congrArg (s.imports :: ·) himports⟩
      · rw [List.mapM_cons, hs]
        change (ts.mapM (structOf o) >>= _) = _
        rw [hstructs]
        rfl
      · rw [List.mapM_cons, htext]
        change (structs.mapM renderStruct >>= _) = _
        rw [htexts]
        rfl

/-- The imports are what the field types of the structs call for. -/
structure ImportsAreExact (structs : List Go.Struct) (imports : TextSet) : Prop where
  ascending : imports.toList.Pairwise (· < ·)
  /-- A path is imported if it is that of a package and qualifies the type of a field. -/
  mem_iff : ∀ p, p ∈ imports ↔ (∃ k : Go.Package, p = k.path) ∧
    ∃ s ∈ structs, ∃ f ∈ s.fields, Go.qualifier? f.type = some (Go.lastElement p)
  /-- Whatever qualifies the type of a field is imported. -/
  imported : ∀ s ∈ structs, ∀ f ∈ s.fields, ∀ q, Go.qualifier? f.type = some q →
    ∃ p ∈ imports, Go.lastElement p = q

theorem importsAreExact_of_structs {o : Options} {ts : List Table} {structs : List Go.Struct}
    {imports : TextSet} (h : ts.mapM (structOf o) = .ok structs)
    (himports : ∀ p, p ∈ imports ↔ ∃ s ∈ structs, p ∈ s.imports) :
    ImportsAreExact structs imports := by
  refine ⟨imports.ascending, fun p => ?_, fun s hs f hf name hname => ?_⟩
  · rw [himports]
    constructor
    · rintro ⟨s, hs, hp⟩
      obtain ⟨t, -, ht⟩ := exists_of_mem_mapM h hs
      obtain ⟨k, rfl, f, hf, hqualifier⟩ := (mem_imports_of_structOf ht).1 hp
      exact ⟨⟨k, rfl⟩, s, hs, f, hf, by rw [Go.lastElement_path, hqualifier]⟩
    · rintro ⟨⟨k, rfl⟩, s, hs, f, hf, hqualifier⟩
      obtain ⟨t, -, ht⟩ := exists_of_mem_mapM h hs
      rw [Go.lastElement_path] at hqualifier
      exact ⟨s, hs, (mem_imports_of_structOf ht).2 ⟨k, rfl, f, hf, hqualifier⟩⟩
  · obtain ⟨t, -, ht⟩ := exists_of_mem_mapM h hs
    obtain ⟨k, rfl⟩ := exists_package_of_structOf ht hf hname
    refine ⟨k.path, (himports _).2 ⟨s, hs, ?_⟩, Go.lastElement_path k⟩
    exact (mem_imports_of_structOf ht).2 ⟨k, rfl, f, hf, hname⟩

/-- A module that generates, from statements or from one table, holds the structs of its tables, and
its imports are exactly those that the field types in them call for. -/
theorem imports_are_exact (o : Options) :
    (∀ (ss : List Statement) (m : Module), generate o ss = .ok m →
      ∃ structs, (Ddl.tablesOf ss).mapM (structOf o) = .ok structs ∧
        structs.mapM renderStruct = .ok m.structs ∧ ImportsAreExact structs m.imports) ∧
    ∀ (t : Table) (m : Module), generateTable o t = .ok m →
      ∃ s, structOf o t = .ok s ∧ [s].mapM renderStruct = .ok m.structs ∧
        ImportsAreExact [s] m.imports := by
  constructor
  · intro ss m h
    obtain ⟨parts, hparts, h⟩ := exists_of_bind_ok h
    cases h
    obtain ⟨structs, hstructs, htexts, himports⟩ := of_mapM_generateStruct hparts
    refine ⟨structs, hstructs, htexts, importsAreExact_of_structs hstructs fun p => ?_⟩
    rw [himports, TextSet.mem_foldr_union]
    constructor
    · rintro ⟨_, hset, hp⟩
      obtain ⟨s, hs, rfl⟩ := List.mem_map.1 hset
      exact ⟨s, hs, hp⟩
    · rintro ⟨s, hs, hp⟩
      exact ⟨s.imports, List.mem_map_of_mem hs, hp⟩
  · intro t m h
    obtain ⟨part, hpart, h⟩ := exists_of_bind_ok h
    cases h
    obtain ⟨s, hs, hpart⟩ := exists_of_bind_ok hpart
    obtain ⟨text, htext, hpart⟩ := exists_of_bind_ok hpart
    cases hpart
    have hstructs : [t].mapM (structOf o) = .ok [s] := by
      rw [List.mapM_cons, hs]
      rfl
    refine ⟨s, hs, ?_, importsAreExact_of_structs hstructs fun p => by simp⟩
    rw [List.mapM_cons, htext]
    rfl

/-- A table with columns that may be `NULL`. -/
def pricesTable : Table where
  name := "prices"
  columns := [
    { name := "note", type := { dataType := .plain .json }, options := [.null] },
    { name := "since", type := { dataType := .plain .date } },
    { name := "tax", type := { dataType := .precise .decimal none none }, options := [.null] }]

def salesTable : Table where
  name := "sales"
  columns := [
    { name := "id", type := { dataType := .sized .bigint none }, options := [.primaryKey] },
    { name := "total", type := { dataType := .precise .numeric none none } },
    { name := "sold", type := { dataType := .sized .timestamp none } }]

/-- Both tables need `time`, which is imported once; where `NULL` is a pointer, a type from
`decimal` takes the place of a wrapper. -/
theorem imports_of_pricesTable :
    (∃ m structs, generate {} [.createTable pricesTable, .other, .createTable salesTable] = .ok m ∧
      m.imports.toList = [Go.Package.sql.path, Go.Package.decimal.path, Go.Package.time.path] ∧
      ImportsAreExact structs m.imports) ∧
    ∃ m s, generateTable { nullStyle := .pointer } pricesTable = .ok m ∧
      m.imports.toList = [Go.Package.decimal.path, Go.Package.time.path] ∧
      ImportsAreExact [s] m.imports := by
  have hboth : ((generate {} [.createTable pricesTable, .other, .createTable salesTable]).toOption.map
      (·.imports.toList)) =
        some [Go.Package.sql.path, Go.Package.decimal.path, Go.Package.time.path] := by
    decide +kernel
  have hprices : ((generateTable { nullStyle := .pointer } pricesTable).toOption.map
      (·.imports.toList)) = some [Go.Package.decimal.path, Go.Package.time.path] := by
    decide +kernel
  constructor
  · obtain ⟨m, hm, himports⟩ := Option.map_eq_some_iff.1 hboth
    have hok := eq_ok_of_toOption hm
    obtain ⟨structs, -, -, hexact⟩ := (imports_are_exact {}).1 _ m hok
    exact ⟨m, structs, hok, himports, hexact⟩
  · obtain ⟨m, hm, himports⟩ := Option.map_eq_some_iff.1 hprices
    have hok := eq_ok_of_toOption hm
    obtain ⟨s, -, -, hexact⟩ := (imports_are_exact { nullStyle := .pointer }).2 _ m hok
    exact ⟨m, s, hok, himports, hexact⟩

end Model

end SchemaModels
