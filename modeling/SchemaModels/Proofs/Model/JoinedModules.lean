import SchemaModels.Proofs.Model.Imports

/-!
# Modules of several tables

The module of some statements is put together from the modules of the single tables among them: it
generates where each of them does, and holds what they hold (`generate_agrees`). So two lists of
statements one after another give what each of them gives, the first before the second.
-/

namespace SchemaModels

namespace TextSet

theorem empty_union (s : TextSet) : empty.union s = s := by
  ext v
  simp

theorem union_assoc (s u w : TextSet) : (s.union u).union w = s.union (u.union w) := by
  ext v
  simp only [mem_union, or_assoc]

end TextSet

namespace Model

open Ddl (Statement Table)

namespace Module

/-- A module with what another one holds behind its own. -/
def append (m n : Module) : Module :=
  ⟨m.package, m.imports.union n.imports, m.structs ++ n.structs⟩

theorem append_assoc (a b c : Module) : (a.append b).append c = a.append (b.append c) := by
  simp only [append, TextSet.union_assoc, List.append_assoc]

/-- A module holds what some modules hold: their structs one after another, and in ascending order
whatever one of them imports. -/
structure Joins (o : Options) (parts : List Module) (m : Module) : Prop where
  package : m.package = o.package
  structs : m.structs = parts.flatMap (·.structs)
  ascending : m.imports.toList.Pairwise (· < ·)
  mem_imports : ∀ p, p ∈ m.imports ↔ ∃ part ∈ parts, p ∈ part.imports

theorem joins_nil (o : Options) : Joins o [] ⟨o.package, .empty, []⟩ :=
  ⟨rfl, rfl, TextSet.ascending _, fun p => by simp⟩

theorem Joins.cons {o : Options} {parts : List Module} {m n : Module} (hm : m.package = o.package)
    (hn : Joins o parts n) : Joins o (m :: parts) (m.append n) := by
  refine ⟨hm, ?_, TextSet.ascending _, fun p => ?_⟩
  · rw [List.flatMap_cons, ← hn.structs]
    rfl
  · simp only [append, TextSet.mem_union, hn.mem_imports, List.mem_cons, exists_eq_or_imp]

end Module

/-! ### One statement more -/

theorem package_of_generateTable {o : Options} {t : Table} {m : Module}
    (h : generateTable o t = .ok m) : m.package = o.package := by
  obtain ⟨part, -, h⟩ := exists_of_bind_ok h
  cases h
  rfl

theorem generate_nil (o : Options) : generate o [] = .ok ⟨o.package, .empty, []⟩ := rfl

theorem generate_other (o : Options) (ss : List Statement) :
    generate o (.other :: ss) = generate o ss := rfl

/-- A table goes before the statements behind it, and so does its error. -/
theorem generate_createTable (o : Options) (t : Table) (ss : List Statement) :
    generate o (.createTable t :: ss) = do
      let m ← generateTable o t
      return m.append (← generate o ss) := by
  have htables : Ddl.tablesOf (.createTable t :: ss) = t :: Ddl.tablesOf ss := rfl
  unfold generate generateTables generateTable
  rw [htables, List.mapM_cons]
  cases generateStruct o t with
  | error e => rfl
  | ok part =>
      cases (Ddl.tablesOf ss).mapM (generateStruct o) with
      | error e => rfl
      | ok parts => rfl

/-! ### All statements -/

theorem package_of_generate {o : Options} {ss : List Statement} {m : Module}
    (h : generate o ss = .ok m) : m.package = o.package := by
  obtain ⟨parts, -, h⟩ := exists_of_bind_ok h
  cases h
  rfl

theorem generate_append (o : Options) (ss more : List Statement) :
    generate o (ss ++ more) = do
      let m ← generate o ss
      return m.append (← generate o more) := by
  induction ss with
  | nil =>
      rw [List.nil_append, generate_nil]
      cases hmore : generate o more with
      | error e => rfl
      | ok n =>
          have hn : Module.append ⟨o.package, .empty, []⟩ n = n := by
            simp only [Module.append, TextSet.empty_union, List.nil_append,
              ← package_of_generate hmore]
          exact congrArg Except.ok hn.symm
  | cons s ss ih =>
      cases s with
      | other => exact ih
      | createTable t =>
          rw [List.cons_append, generate_createTable, generate_createTable, ih]
          cases generateTable o t with
          | error e => rfl
          | ok m =>
              cases generate o ss with
              | error e => rfl
              | ok n =>
                  cases generate o more with
                  | error e => rfl
                  | ok k => exact congrArg Except.ok (Module.append_assoc m n k).symm

/-- What is generated holds the modules of the single tables. -/
theorem joins_of_generate {o : Options} {ss : List Statement} {m : Module}
    (h : generate o ss = .ok m) : ∃ parts : List Module,
      (Ddl.tablesOf ss).map (generateTable o) = parts.map .ok ∧ m.Joins o parts := by
  induction ss generalizing m with
  | nil =>
      cases h
      exact ⟨[], rfl, Module.joins_nil o⟩
  | cons s ss ih =>
      cases s with
      | other => exact ih h
      | createTable t =>
          rw [generate_createTable] at h
          obtain ⟨part, hpart, h⟩ := exists_of_bind_ok h
          obtain ⟨n, hn, h⟩ := exists_of_bind_ok h
          cases h
          obtain ⟨parts, hparts, hjoins⟩ := ih hn
          refine ⟨part :: parts, ?_, hjoins.cons (package_of_generateTable hpart)⟩
          change generateTable o t :: (Ddl.tablesOf ss).map (generateTable o) = _
          rw [hpart, hparts, List.map_cons]

theorem exists_generate_iff (o : Options) (ss : List Statement) :
    (∃ m, generate o ss = .ok m) ↔
      ∀ t, .createTable t ∈ ss → ∃ m, generateTable o t = .ok m := by
  induction ss with
  | nil => exact iff_of_true ⟨_, generate_nil o⟩ nofun
  | cons s ss ih =>
      cases s with
      | other => simpa [generate_other] using ih
      | createTable t =>
          simp only [generate_createTable, List.mem_cons, Statement.createTable.injEq]
          rw [forall_eq_or_imp, ← ih]
          constructor
          · rintro ⟨m, h⟩
            obtain ⟨part, hpart, h⟩ := exists_of_bind_ok h
            obtain ⟨n, hn, -⟩ := exists_of_bind_ok h
            exact ⟨⟨part, hpart⟩, n, hn⟩
          · rintro ⟨⟨part, hpart⟩, n, hn⟩
            exact ⟨part.append n, by rw [hpart, hn]; rfl⟩

/-- The first table that fails: it has tables that generate in front of it only. -/
def FailsFirst (o : Options) (ss : List Statement) (e : GenerateError) : Prop :=
  ∃ before t after, ss = before ++ .createTable t :: after ∧
    (∀ u, .createTable u ∈ before → ∃ m, generateTable o u = .ok m) ∧ generateTable o t = .error e

theorem failsFirst_of_generate {o : Options} {ss : List Statement} {e : GenerateError}
    (h : generate o ss = .error e) : FailsFirst o ss e := by
  induction ss with
  | nil => cases h
  | cons s ss ih =>
      cases s with
      | other =>
          obtain ⟨before, t, after, rfl, hbefore, ht⟩ := ih h
          exact ⟨.other :: before, t, after, rfl, by simpa using hbefore, ht⟩
      | createTable u =>
          rw [generate_createTable] at h
          cases hu : generateTable o u with
          | error e' =>
              rw [hu] at h
              cases h
              exact ⟨[], u, ss, rfl, nofun, hu⟩
          | ok m =>
              cases hss : generate o ss with
              | ok n =>
                  rw [hu, hss] at h
                  cases h
              | error e' =>
                  rw [hu, hss] at h
                  cases h
                  obtain ⟨before, t, after, rfl, hbefore, ht⟩ := ih hss
                  refine ⟨.createTable u :: before, t, after, rfl, fun v hv => ?_, ht⟩
                  rcases List.mem_cons.1 hv with he | hv
                  · cases he
                    exact ⟨m, hu⟩
                  · exact hbefore v hv

theorem generate_eq_error_iff (o : Options) (ss : List Statement) (e : GenerateError) :
    generate o ss = .error e ↔ FailsFirst o ss e := by
  refine ⟨failsFirst_of_generate, ?_⟩
  rintro ⟨before, t, after, rfl, hbefore, ht⟩
  obtain ⟨m, hm⟩ := (exists_generate_iff o before).2 hbefore
  rw [generate_append, generate_createTable, hm, ht]
  rfl

/-- Statements generate exactly if each table among them does, and then their module holds what the
modules of the tables hold, in the order of the statements. Else their error is that of the first
table that fails. What two lists of statements give one after another follows from what each of them
gives. -/
theorem generate_agrees (o : Options) (ss : List Statement) :
    ((∃ m, generate o ss = .ok m) ↔ ∀ t, .createTable t ∈ ss → ∃ m, generateTable o t = .ok m) ∧
    (∀ m, generate o ss = .ok m → ∃ parts : List Module,
      (Ddl.tablesOf ss).map (generateTable o) = parts.map .ok ∧ m.Joins o parts) ∧
    (∀ e, generate o ss = .error e ↔ FailsFirst o ss e) ∧
    ∀ more, generate o (ss ++ more) = do
      let m ← generate o ss
      return m.append (← generate o more) :=
  ⟨exists_generate_iff o ss, fun _ => joins_of_generate, generate_eq_error_iff o ss,
    generate_append o ss⟩

/-- A type that has no counterpart. -/
def hoursTable : Table where
  name := "hours"
  columns := [{ name := "opening", type := { dataType := .sized .time none } }]

/-- Tables with an import in common generate to one module; a table between them that fails makes
them fail, with its error. -/
theorem generate_agrees_of_pricesTable :
    (∃ m prices sales, generateTable {} pricesTable = .ok prices ∧
      generateTable {} salesTable = .ok sales ∧
      generate {} [.createTable pricesTable, .other, .createTable salesTable] = .ok m ∧
      m.structs = prices.structs ++ sales.structs ∧
      ∀ p, p ∈ m.imports ↔ p ∈ prices.imports ∨ p ∈ sales.imports) ∧
    generate {} [.createTable pricesTable, .createTable hoursTable, .createTable salesTable] =
      .error (.unsupportedType "hours" "opening" "time") := by
  have hprices : ((generateTable {} pricesTable).toOption).isSome = true := by decide +kernel
  have hsales : ((generateTable {} salesTable).toOption).isSome = true := by decide +kernel
  have hhours : generateTable {} hoursTable =
      .error (.unsupportedType "hours" "opening" "time") := by decide +kernel
  obtain ⟨prices, hprices⟩ := Option.isSome_iff_exists.1 hprices
  obtain ⟨sales, hsales⟩ := Option.isSome_iff_exists.1 hsales
  replace hprices := eq_ok_of_toOption hprices
  replace hsales := eq_ok_of_toOption hsales
  constructor
  · obtain ⟨hok, hjoins, -, -⟩ :=
      generate_agrees {} [.createTable pricesTable, .other, .createTable salesTable]
    obtain ⟨m, hm⟩ := hok.2 fun t ht => by
      simp only [List.mem_cons, Statement.createTable.injEq, reduceCtorEq, List.not_mem_nil,
        or_false, false_or] at ht
      rcases ht with rfl | rfl
      · exact ⟨prices, hprices⟩
      · exact ⟨sales, hsales⟩
    obtain ⟨parts, hparts, hm'⟩ := hjoins m hm
    have htables : Ddl.tablesOf [.createTable pricesTable, .other, .createTable salesTable] =
        [pricesTable, salesTable] := rfl
    rw [htables, List.map_cons, List.map_cons, hprices, hsales] at hparts
    have hparts' : [prices, sales].map .ok = parts.map (Except.ok (ε := GenerateError)) := hparts
    obtain rfl := (List.map_inj_right fun _ _ => Except.ok.inj).1 hparts'
    refine ⟨m, prices, sales, hprices, hsales, hm, ?_, fun p => ?_⟩
    · simpa using hm'.structs
    · simpa using hm'.mem_imports p
  · obtain ⟨-, -, herror, -⟩ := generate_agrees {}
      [.createTable pricesTable, .createTable hoursTable, .createTable salesTable]
    refine (herror _).2 ⟨[.createTable pricesTable], hoursTable, [.createTable salesTable], rfl,
      fun u hu => ?_, hhours⟩
    cases List.mem_singleton.1 hu
    exact ⟨prices, hprices⟩

end Model

end SchemaModels
