import SchemaModels.Proofs.Tool.NewDirectories
import SchemaModels.Proofs.Tool.RunOrder

/-!
# What a run touches

A run changes a file only for a table that it reports as written, and then the file holds the
table's model. Every other file is as it was at the start, whatever becomes of the tables
(`RunEffects`, `run_touches_written_files`), for tables handled one after another and for those
handled at once.
-/

namespace SchemaModels.Tool

open Ddl (Table)
open Model (Options)
open Path (IsName)

/-! ### One table -/

/-- A request to write either fails and changes nothing, or puts the whole file in its place. -/
theorem Store.handle_write_cases (s : Store) (p : Path) (content : Text) :
    (∃ e, Store.handle (.write p content) s = (.error e, s)) ∨
      ∃ l, s.locateFile p = .ok l ∧ s.node? l ≠ some .directory ∧
        Store.handle (.write p content) s = (.ok (), s.put l (.file (some content))) := by
  simp only [Store.handle, Store.write]
  cases hl : s.locateFile p with
  | error e => exact Or.inl ⟨e, rfl⟩
  | ok l =>
      by_cases hn : s.node? l = some .directory
      · exact Or.inl ⟨.isADirectory, by simp [bind, Except.bind, hn]; rfl⟩
      · exact Or.inr ⟨l, rfl, hn, by simp [bind, Except.bind, hn]; rfl⟩

namespace Job

/-- The job puts the model of its table at the place, and reports it. -/
def WritesAt (s : Settings) (made : Store) (j : Job) (l : Location) : Prop :=
  ∃ m, Model.generateTable s.options j.table = .ok m ∧ made.locateFile j.path = .ok l ∧
    j.alone s made = (.written j.path, made.put l (.file (some m.render)))

theorem run_write_cases (o : Options) (j : Job) (store : Store) :
    ((∀ p, ((j.write o).run Store.handle store).1 ≠ .written p) ∧
        ((j.write o).run Store.handle store).2 = store) ∨
      ∃ m l, Model.generateTable o j.table = .ok m ∧ store.locateFile j.path = .ok l ∧
        (j.write o).run Store.handle store =
          (.written j.path, store.put l (.file (some m.render))) := by
  unfold write
  cases hm : Model.generateTable o j.table with
  | error e => exact Or.inl ⟨nofun, rfl⟩
  | ok m =>
      dsimp only [Program.run]
      obtain ⟨e, he⟩ | ⟨l, hl, -, hput⟩ := store.handle_write_cases j.path m.render
      · rw [he]
        exact Or.inl ⟨nofun, rfl⟩
      · rw [hput]
        exact Or.inr ⟨m, l, rfl, hl, rfl⟩

/-- A job without an owner for its path either changes nothing, or writes its file, which is not
there before unless files are updated. -/
theorem alone_cases (s : Settings) (made : Store) {j : Job} (hown : j.owner = none) :
    ((∀ p, (j.alone s made).1 ≠ .written p) ∧ (j.alone s made).2 = made) ∨
      ∃ l, j.WritesAt s made l ∧ (s.update = false → made.node? l = none) := by
  have hwrite := run_write_cases s.options j made
  unfold WritesAt alone run
  rw [hown]
  dsimp only
  cases hu : s.update with
  | true =>
      rw [if_pos rfl]
      obtain hidle | ⟨m, l, hm, hl, hrun⟩ := hwrite
      · exact Or.inl hidle
      · exact Or.inr ⟨l, ⟨m, hm, hl, hrun⟩, by simp⟩
  | false =>
      simp only [Bool.false_eq_true, if_false, Program.run, Store.handle_isPresent]
      cases hp : Store.presence (made.look j.path) with
      | error e => exact Or.inl ⟨by simp [Program.run], rfl⟩
      | ok present =>
          cases present with
          | true => exact Or.inl ⟨by simp [Program.run], rfl⟩
          | false =>
              obtain hidle | ⟨m, l, hm, hl, hrun⟩ := hwrite
              · exact Or.inl hidle
              · refine Or.inr ⟨l, ⟨m, hm, hl, hrun⟩, fun _ => ?_⟩
                rw [Store.look_of_locateFile hl] at hp
                simpa [Store.presence] using hp

/-- A file that a job has written is there. -/
theorem WritesAt.look_alone {s : Settings} {made : Store} {j : Job} {f : Text} (hf : IsName f)
    (hj : j.path = Path.join s.output f) {l : Location} (h : j.WritesAt s made l) :
    ∃ m, Model.generateTable s.options j.table = .ok m ∧ l.isOutside = false ∧
      (j.alone s made).2.look j.path = .ok (l, some (.file (some m.render))) := by
  obtain ⟨m, hm, hl, halone⟩ := h
  obtain ⟨d, -, -, rfl⟩ := Store.locateFile_join_eq_ok hf (hj ▸ hl)
  have hout := Store.isOutside_append hf d
  have hkept := (kept_alone hf hj made).locateFile_eq f hf
  rw [← hj, hl] at hkept
  refine ⟨m, hm, hout, ?_⟩
  rw [Store.look_of_locateFile hkept, halone, Store.node?_put_self _ _ hout]

end Job

/-! ### All tables -/

namespace Settled

variable {s : Settings} {js : List Job} {made final : Store}

/-- A place that no owner's path leads to is as it was. -/
theorem node?_of_unowned (h : Settled s js made final) {l : Location}
    (hl : ∀ j ∈ js, j.owner = none → made.locateFile j.path ≠ .ok l) :
    final.node? l = made.node? l := by
  by_cases hplace : ∃ f, IsName f ∧ made.locateFile (Path.join s.output f) = .ok l
  · obtain ⟨f, hf, hlf⟩ := hplace
    have hothers := h.others f hf fun j hj hown he => hl j hj hown (he ▸ hlf)
    have hlook := Store.look_of_locateFile ((h.kept.locateFile_eq f hf).trans hlf)
    rw [hothers, Store.look_of_locateFile hlf] at hlook
    exact (Prod.mk.inj (Except.ok.inj hlook)).2.symm
  · exact h.kept.node?_eq l fun f hf hlf => hplace ⟨f, hf, hlf⟩

/-- What an owner's job leaves at the place of its path is there in the end. -/
theorem node?_of_writesAt (h : Settled s js made final) (hjs : Apart s.output js) {j : Job}
    (hj : j ∈ js) (hown : j.owner = none) {l : Location} (hw : j.WritesAt s made l) :
    ∃ m, Model.generateTable s.options j.table = .ok m ∧ final.locateFile j.path = .ok l ∧
      final.node? l = some (.file (some m.render)) := by
  obtain ⟨f, hf, hpath⟩ := hjs.isName j hj
  obtain ⟨m, hm, -, hlook⟩ := hw.look_alone hf hpath
  have howned := h.owned j hj hown
  rw [hlook] at howned
  exact ⟨m, hm, Store.locateFile_eq_ok_of_look howned⟩

/-- Every place is as it was unless a job has written its file there. -/
theorem node?_cases (h : Settled s js made final) (l : Location) :
    final.node? l = made.node? l ∨ ∃ j ∈ js, j.owner = none ∧ j.WritesAt s made l ∧
      (s.update = false → made.node? l = none) := by
  by_cases hplace : ∃ j ∈ js, j.owner = none ∧ made.locateFile j.path = .ok l
  · obtain ⟨j, hj, hown, hl⟩ := hplace
    obtain ⟨-, hidle⟩ | ⟨l', hw, hnew⟩ := j.alone_cases s made hown
    · have howned := h.owned j hj hown
      rw [hidle, Store.look_of_locateFile hl] at howned
      exact Or.inl (Store.locateFile_eq_ok_of_look howned).2
    · have hll : l' = l := by
        obtain ⟨m, -, hl', -⟩ := hw
        exact Except.ok.inj (hl'.symm.trans hl)
      subst hll
      exact Or.inr ⟨j, hj, hown, hw, hnew⟩
  · exact Or.inl (h.node?_of_unowned fun j hj hown hl => hplace ⟨j, hj, hown, hl⟩)

end Settled

/-- What the files after a run have to do with those before it and with the run's report. -/
structure RunEffects (s : Settings) (ts : List Table) (start : Store) (report : Report)
    (final : Store) : Prop where
  /-- Each table has one outcome, in the order of the tables. -/
  tables : report.outcomes.map (·.table) = ts.map (·.name)
  /-- A file that no table's path leads to is neither changed nor new. -/
  elsewhere : ∀ l, (∀ t ∈ ts, final.locateFile (s.pathOf t) ≠ .ok l) →
    final.file? l = start.file? l
  /-- Without updates every file stays as it was. -/
  existing : s.update = false → ∀ l text, start.file? l = some text → final.file? l = some text
  /-- The file of a table that was written holds the table's model. -/
  written : ∀ (i : Nat) t name p, ts[i]? = some t → report.outcomes[i]? = some ⟨name, .written p⟩ →
    p = s.pathOf t ∧
      ∃ m, Model.generateTable s.options t = .ok m ∧ final.read p = .ok m.render
  /-- The file of a table that was not written stays as it was, unless another table owns the path
  and was written. -/
  idle : ∀ (i : Nat) t y l, ts[i]? = some t → report.outcomes[i]? = some y →
    (∀ p, y.status ≠ .written p) → final.locateFile (s.pathOf t) = .ok l →
      final.file? l = start.file? l ∨ ∃ k u, k < i ∧ s.Owns ts (s.pathOf t) k u ∧
        y.status = .failed (.duplicateOutput (s.pathOf t) t.name u.name) ∧
          report.outcomes[k]? = some ⟨u.name, .written (s.pathOf u)⟩

theorem Store.read_of_file {s : Store} {p : Path} {l : Location} {content : Text}
    (hl : s.locateFile p = .ok l) (hn : s.node? l = some (.file (some content))) :
    s.read p = .ok content := by
  simp only [Store.read, hl, bind, Except.bind, hn]
  rfl

section Effects

variable {s : Settings} {ts : List Table} {start made final : Store}

/-- The outcome of a table is that of its job. -/
theorem exists_job {i : Nat} {t : Table} {y : Outcome} (ht : ts[i]? = some t)
    (hy : ((jobsOf s ts).map (Job.expected s made))[i]? = some y) :
    ∃ j, (jobsOf s ts)[i]? = some j ∧ j.table = t ∧ j.path = s.pathOf t ∧
      y = ⟨t.name, (j.alone s made).1⟩ := by
  rw [List.getElem?_map, getElem?_jobsOf, ht, Option.map_some, Option.map_some] at hy
  refine ⟨_, by rw [getElem?_jobsOf, ht, Option.map_some], rfl, rfl, ?_⟩
  exact (Option.some.inj hy).symm

/-- A table that was written owns its path. -/
theorem owns_of_owner_eq_none {k : Nat} {j : Job} (hj : (jobsOf s ts)[k]? = some j)
    (hown : j.owner = none) : s.Owns ts j.path k j.table := by
  rw [getElem?_jobsOf] at hj
  obtain ⟨u, hu, rfl⟩ := Option.map_eq_some_iff.1 hj
  refine ⟨hu, rfl, ?_⟩
  obtain ⟨-, hfree⟩ | ⟨m, v, -, -, hv⟩ := ownerOf?_take_cases s ts k (s.pathOf u)
  · exact hfree
  · rw [hv] at hown
    cases hown

theorem status_of_written {j : Job} {p : Path} (h : (j.alone s made).1 = .written p) :
    j.owner = none ∧ p = j.path ∧ ∃ l, j.WritesAt s made l := by
  cases hown : j.owner with
  | some owner =>
      rw [j.alone_of_owner s made hown] at h
      cases h
  | none =>
      obtain ⟨hidle, -⟩ | ⟨l, hw, -⟩ := j.alone_cases s made hown
      · exact absurd h (hidle p)
      · obtain ⟨m, -, -, halone⟩ := id hw
        rw [halone] at h
        exact ⟨rfl, (Status.written.inj h).symm, l, hw⟩

/-- A table that was not written found its file as it was, or its path owned by another table. -/
theorem idle_of_settled (hts : ∀ t ∈ ts, '/' ∉ t.name) (hgrows : Store.Grows start made)
    (h : Settled s (jobsOf s ts) made final) {i : Nat} {t : Table} {j : Job} {l : Location}
    (hj : (jobsOf s ts)[i]? = some j) (ht : ts[i]? = some t) (hpath : j.path = s.pathOf t)
    (hidle : ∀ p, (j.alone s made).1 ≠ .written p)
    (hl : final.locateFile (s.pathOf t) = .ok l) :
    final.file? l = start.file? l ∨ ∃ k u, k < i ∧ s.Owns ts (s.pathOf t) k u ∧
      (j.alone s made).1 = .failed (.duplicateOutput (s.pathOf t) t.name u.name) ∧
        ((jobsOf s ts).map (Job.expected s made))[k]? =
          some ⟨u.name, .written (s.pathOf u)⟩ := by
  have hapart := apart_jobsOf (s := s) hts
  obtain hsame | ⟨q, hq, hown, ⟨m, hm, hql, halone⟩, -⟩ := h.node?_cases l
  · exact Or.inl ((Store.file?_congr hsame).trans (hgrows.file?_eq l))
  · -- The job that wrote at the place has the same path, and so owns that of the table.
    right
    obtain ⟨k, hk⟩ := List.mem_iff_getElem?.1 hq
    obtain ⟨f, hf, hqf⟩ := hapart.isName q hq
    obtain ⟨g, hg, hjg⟩ := hapart.isName j (List.mem_of_getElem? hj)
    rw [← hpath, hjg, h.kept.locateFile_eq g hg] at hl
    have hfg : f = g := Store.locateFile_join_inj hf hg (hqf ▸ hql) hl
    have hqj : q.path = s.pathOf t := by rw [hqf, hfg, ← hjg, hpath]
    have howns := owns_of_owner_eq_none hk hown
    rw [hqj] at howns
    have hji := owner_of_getElem? ht howns
    have hki : k ≠ i := by
      rintro rfl
      rw [hj] at hk
      cases hk
      exact hidle j.path (by rw [halone])
    have hlt : k < i := by
      rcases Nat.lt_or_gt_of_ne hki with hlt | hgt
      · exact hlt
      · exact absurd rfl (howns.2.2 i hgt t ht)
    rw [hj, if_neg hki] at hji
    cases hji
    refine ⟨k, q.table, hlt, howns, ?_, ?_⟩
    · rw [Job.alone_of_owner s made rfl]
    · have hqt : q.path = s.pathOf q.table := by
        rw [getElem?_jobsOf] at hk
        obtain ⟨u, -, rfl⟩ := Option.map_eq_some_iff.1 hk
        rfl
      rw [List.getElem?_map, hk, Option.map_some, Job.expected, halone, hqt]

theorem runEffects_of_settled (hts : ∀ t ∈ ts, '/' ∉ t.name) (hgrows : Store.Grows start made)
    (h : Settled s (jobsOf s ts) made final) :
    RunEffects s ts start ⟨(jobsOf s ts).map (Job.expected s made)⟩ final := by
  have hapart := apart_jobsOf (s := s) hts
  refine ⟨?_, fun l hl => ?_, fun hupdate l text htext => ?_, fun i t name p ht hy => ?_,
    fun i t y l ht hy hidle hl => ?_⟩
  · apply List.ext_getElem?
    intro i
    simp only [List.getElem?_map, getElem?_jobsOf, Option.map_map]
    cases ts[i]? <;> rfl
  · refine (Store.file?_congr (h.node?_of_unowned fun j hj hown hjl => ?_)).trans
      (hgrows.file?_eq l)
    obtain ⟨i, hi⟩ := List.mem_iff_getElem?.1 hj
    obtain ⟨f, hf, hjf⟩ := hapart.isName j hj
    rw [getElem?_jobsOf] at hi
    obtain ⟨t, ht, rfl⟩ := Option.map_eq_some_iff.1 hi
    apply hl t (List.mem_of_getElem? ht)
    rw [show s.pathOf t = _ from hjf, h.kept.locateFile_eq f hf, ← hjf, hjl]
  · rw [← hgrows.file?_eq l] at htext
    obtain hsame | ⟨j, -, -, -, hnew⟩ := h.node?_cases l
    · rw [Store.file?_congr hsame, htext]
    · rw [Store.file?_eq_some_iff, hnew hupdate] at htext
      cases htext
  · obtain ⟨j, hj, rfl, hpath, hjy⟩ := exists_job ht hy
    obtain ⟨hown, rfl, l, hw⟩ := status_of_written (Outcome.mk.inj hjy).2.symm
    obtain ⟨m, hm, hl, hn⟩ := h.node?_of_writesAt hapart (List.mem_of_getElem? hj) hown hw
    exact ⟨hpath, m, hm, Store.read_of_file hl hn⟩
  · obtain ⟨j, hj, rfl, hpath, rfl⟩ := exists_job ht hy
    exact idle_of_settled hts hgrows h hj ht hpath hidle hl

end Effects

/-- A run changes the files of the tables that it reports as written and no others, be the tables
handled one after another or at once with any order of turns. Where the output directory cannot be
made, no file changes at all. -/
theorem run_touches_written_files (s : Settings) {ts : List Table} (hts : ∀ t ∈ ts, '/' ∉ t.name)
    (start : Store) :
    (match (runTables s ts).run Store.handle start with
      | (.ok report, final) => RunEffects s ts start report final
      | (.error _, final) => ∀ l, final.file? l = start.file? l) ∧
    ∀ made, start.makeDirectories s.output = (.ok (), made) → ∀ permits turns r,
      ({ tables := ts, store := made } : ParallelRun).after s permits turns = some r → r.isOver →
        RunEffects s ts start r.report r.store := by
  have hgrows := Store.grows_makeDirectories start s.output
  constructor
  · cases hmade : start.makeDirectories s.output with
    | mk answer made =>
        rw [hmade] at hgrows
        cases answer with
        | error e =>
            simp only [runTables, Program.run, Store.handle, hmade]
            exact hgrows.file?_eq
        | ok _ =>
            obtain ⟨final, hrun, hsettled⟩ := run_sequence s (apart_jobsOf hts) made
            simp only [runTables, Program.run, Store.handle, hmade, Program.run_bind, hrun]
            exact runEffects_of_settled hts hgrows hsettled
  · intro made hmade permits turns r hr hover
    rw [hmade] at hgrows
    have hsound := (ParallelRun.Sound.start s ts made).after hts hr
    rw [hsound.report_eq hover]
    exact runEffects_of_settled hts hgrows (hsound.settled hover)

def guardedSettings : Settings where
  input := .file "schema.sql"
  output := "models"
  tables := .all
  update := false
  jobs := none
  options := {}
  defaults := {}

/-- A table without a file, one with a file, and one whose type has no counterpart. -/
def mixedTables : List Table :=
  [{ name := "users", columns := [{ name := "id", type := { dataType := .sized .int none } }] },
   { name := "orders" },
   { name := "events", columns := [{ name := "kind", type := { dataType := .enum ["a"] } }] }]

def ordersPlace : Location := ["models", "orders.go"]

def storeWithOrders : Store :=
  ((Store.mk .empty).put ["models"] .directory).put ordersPlace (.file (some "kept"))

theorem run_of_mixed_tables :
    (∀ t ∈ mixedTables, '/' ∉ t.name) ∧
      ∃ report final, (runTables guardedSettings mixedTables).run Store.handle storeWithOrders =
          (.ok report, final) ∧
        report.outcomes.map (·.table) = [("users" : Text), "orders", "events"] ∧
        (∃ m, Model.generateTable {} mixedTables[0] = .ok m ∧
          final.read "models/users.go" = .ok m.render) ∧
        final.file? ordersPlace = some (some ("kept" : Text)) := by
  have hnames : ∀ t ∈ mixedTables, '/' ∉ t.name := by decide
  obtain ⟨heffects, -⟩ := run_touches_written_files guardedSettings hnames storeWithOrders
  have hwritten : ((runTables guardedSettings mixedTables).run Store.handle
      storeWithOrders).1.toOption.map (·.outcomes[0]?) =
        some (some ⟨"users", .written "models/users.go"⟩) := by
    decide +kernel
  split at heffects
  · rename_i report final hrun
    rw [hrun] at hwritten
    refine ⟨hnames, report, final, hrun, heffects.tables, ?_, ?_⟩
    · exact (heffects.written 0 _ _ _ rfl (Option.some.inj hwritten)).2
    · exact heffects.existing rfl ordersPlace _ (by decide)
  · rename_i e final hrun
    rw [hrun] at hwritten
    cases hwritten

end SchemaModels.Tool
