import SchemaModels.Proofs.Results
import SchemaModels.Proofs.Tool.DirectChildren
import SchemaModels.Proofs.Tool.RunEffects
import SchemaModels.Tool.Session

/-!
# Paths that a run may write

Whatever the answers to its requests are, a run writes the paths of tables only, each for the first
table that leads to it: tables handled one after another (`mayWrite_runTables`) as well as several at
once, at every moment (`ParallelRun.Assigned`). Whether such a path is a direct child of the output
directory depends on what stands before the last slash of the table's name (`written_paths`).
-/

namespace SchemaModels.Tool

open Ddl (Table)
open Model (Options)

/-! ### Programs -/

namespace Program

variable {p : Path}

/-- Some answers lead the program to a request to write the path. -/
def MayWrite (p : Path) : Program α → Prop
  | .pure _ => False
  | .call r next => (∃ content, r = .write p content) ∨ ∃ answer, (next answer).MayWrite p

/-- A program whose continuation may write a path, whatever it is given, may do so itself. -/
theorem mayWrite_bind {x : Program α} {f : α → Program β} {P : Prop}
    (hf : ∀ a, (f a).MayWrite p ↔ P) : (x.bind f).MayWrite p ↔ x.MayWrite p ∨ P := by
  induction x with
  | pure a => simp only [Program.bind, MayWrite, hf, false_or]
  | call r next ih =>
      have answer : Except IoError r.Answer := .error .other
      simp only [Program.bind, MayWrite, ih, or_assoc]
      refine or_congr_right ⟨?_, ?_⟩
      · rintro ⟨a, ha | hP⟩
        · exact Or.inl ⟨a, ha⟩
        · exact Or.inr hP
      · rintro (⟨a, ha⟩ | hP)
        · exact ⟨a, Or.inl ha⟩
        · exact ⟨answer, Or.inr hP⟩

theorem mayWrite_bind_pure (x : Program α) (f : α → β) :
    (x.bind fun a => .pure (f a)).MayWrite p ↔ x.MayWrite p := by
  have hpure : ∀ a, (Program.pure (f a)).MayWrite p ↔ False := fun _ => Iff.rfl
  rw [mayWrite_bind hpure, or_false]

theorem mayWrite_sequence (xs : List (Program α)) :
    (sequence xs).MayWrite p ↔ ∃ x ∈ xs, x.MayWrite p := by
  induction xs with
  | nil => simp [sequence, MayWrite]
  | cons x xs ih =>
      rw [sequence, mayWrite_bind fun a => mayWrite_bind_pure _ _, ih]
      simp

end Program

/-! ### Jobs -/

namespace Job

variable {p : Path}

/-- The job owns the path and has a model to put there. -/
def Fills (o : Options) (p : Path) (j : Job) : Prop :=
  j.owner = none ∧ j.path = p ∧ ∃ m, Model.generateTable o j.table = .ok m

theorem mayWrite_write (o : Options) (j : Job) :
    (j.write o).MayWrite p ↔ j.path = p ∧ ∃ m, Model.generateTable o j.table = .ok m := by
  unfold write
  cases Model.generateTable o j.table with
  | error e => simp [Program.MayWrite]
  | ok m =>
      constructor
      · rintro (⟨content, hr⟩ | ⟨answer, ha⟩)
        · exact ⟨(Request.write.inj hr).1, m, rfl⟩
        · cases answer <;> exact ha.elim
      · rintro ⟨rfl, -⟩
        exact Or.inl ⟨m.render, rfl⟩

/-- Whether a job looks for its file first or not, it may write the same. -/
theorem mayWrite_run (o : Options) (update : Bool) (j : Job) :
    (j.run o update).MayWrite p ↔ j.Fills o p := by
  unfold run Fills
  cases hown : j.owner with
  | some owner => simp [Program.MayWrite]
  | none =>
      cases update with
      | true => simp [mayWrite_write]
      | false =>
          simp only [Bool.false_eq_true, if_false, true_and]
          rw [← mayWrite_write]
          constructor
          · rintro (⟨content, hr⟩ | ⟨e | present, ha⟩)
            · cases hr
            · exact ha.elim
            · cases present with
              | false => exact ha
              | true => exact ha.elim
          · intro h
            exact Or.inr ⟨.ok false, h⟩

end Job

/-- The tables handled one after another may write what their jobs may write. -/
theorem mayWrite_runTables (s : Settings) (ts : List Table) (p : Path) :
    (runTables s ts).MayWrite p ↔ ∃ j ∈ jobsOf s ts, j.Fills s.options p := by
  have hjobs : ((Program.sequence ((jobsOf s ts).map (Job.outcome s.options s.update))).bind
      fun outcomes => .pure (.ok ⟨outcomes⟩ : Except Error Report)).MayWrite p ↔
        ∃ j ∈ jobsOf s ts, j.Fills s.options p := by
    simp only [Program.mayWrite_bind_pure, Program.mayWrite_sequence, List.mem_map,
      exists_exists_and_eq_and, Job.outcome, Job.mayWrite_run]
  rw [← hjobs]
  constructor
  · rintro (⟨content, hr⟩ | ⟨e | _, ha⟩)
    · cases hr
    · exact ha.elim
    · exact ha
  · intro h
    exact Or.inr ⟨.ok (), h⟩

/-! ### Several tables at once -/

/-- A task that is under way owns its path, and one that writes has a model. -/
structure Task.Assigned (o : Options) (x : Task) : Prop where
  owner : x.stage ≠ .reported → x.job.owner = none
  model : ∀ content, x.stage = .writing content →
    ∃ m, Model.generateTable o x.job.table = .ok m

namespace Task.Assigned

variable {s : Settings} {x : Task} {step : Program Stage} {p : Path}

theorem advance (h : x.Assigned s.options)
    (hstep : x.stage.next? s.options s.update x.job = some step) (store : Store) :
    Assigned s.options ⟨x.job, (step.run Store.handle store).1⟩ := by
  obtain ⟨job, stage⟩ := x
  dsimp only at hstep ⊢
  have hne : stage ≠ .reported := by
    rintro rfl
    cases hstep
  refine ⟨fun _ => h.owner hne, fun content hcontent => ?_⟩
  dsimp only at hcontent
  cases stage with
  | waiting =>
      cases hstep
      simp only [Program.run] at hcontent
      split at hcontent <;> cases hcontent
  | looking =>
      cases hstep
      simp only [Program.run, Store.handle_isPresent] at hcontent
      split at hcontent <;> cases hcontent
  | generating =>
      cases hstep
      simp only [Program.run] at hcontent
      cases hm : Model.generateTable s.options job.table with
      | error e =>
          rw [hm] at hcontent
          cases hcontent
      | ok m => exact ⟨m, rfl⟩
  | writing content =>
      cases hstep
      simp only [Program.run, Store.handle_write] at hcontent
      split at hcontent <;> cases hcontent
  | ended status => cases hstep
  | reported => cases hstep

/-- Only a task that holds a model may write, and it writes its own path. -/
theorem fills (h : x.Assigned s.options)
    (hstep : x.stage.next? s.options s.update x.job = some step) (hp : step.MayWrite p) :
    x.job.Fills s.options p := by
  obtain ⟨job, stage⟩ := x
  dsimp only at hstep ⊢
  cases stage with
  | waiting =>
      cases hstep
      exact hp.elim
  | looking =>
      cases hstep
      obtain ⟨content, hr⟩ | ⟨e | present, ha⟩ := hp
      · cases hr
      · exact ha.elim
      · cases present <;> exact ha.elim
  | generating =>
      cases hstep
      exact hp.elim
  | writing content =>
      cases hstep
      obtain ⟨content', hr⟩ | ⟨e | _, ha⟩ := hp
      · exact ⟨h.owner nofun, (Request.write.inj hr).1, h.model content rfl⟩
      · exact ha.elim
      · exact ha.elim
  | ended status => cases hstep
  | reported => cases hstep

end Task.Assigned

namespace ParallelRun

variable {s : Settings} {ts : List Table} {r r' : ParallelRun} {permits : Nat} {p : Path}

/-- The next step of a task may write the path. -/
def MayWrite (s : Settings) (p : Path) (r : ParallelRun) : Prop :=
  ∃ x ∈ r.tasks, ∃ step, x.stage.next? s.options s.update x.job = some step ∧ step.MayWrite p

/-- The jobs of a run: those that have a task, and those of the tables that have none yet. -/
def planned (s : Settings) (r : ParallelRun) : List Job :=
  r.tasks.map (·.job) ++ Tool.assign s.output s.options.tablePrefix r.claimed r.tables

theorem planned_take {turn : Turn} (hr : r.take s permits turn = some r') :
    r'.planned s = r.planned s := by
  unfold planned
  cases turn with
  | assign =>
      obtain ⟨t, rest, htables, ⟨owner, howner, rfl⟩ | ⟨hfree, rfl⟩⟩ := eq_of_assign hr
      · rw [htables, assign_cons_of_owner howner, List.map_append, List.append_assoc]
        rfl
      · rw [htables, assign_cons_of_free hfree, List.map_append, List.append_assoc]
        rfl
  | advance i =>
      obtain ⟨x, step, hx, -, rfl⟩ := eq_of_advance hr
      rw [Sound.map_job_set hx]
  | collect i =>
      obtain ⟨x, status, hx, -, rfl⟩ := eq_of_collect hr
      rw [Sound.map_job_set hx]

/-- What holds of a run at every moment, wherever its paths lead. -/
structure Assigned (s : Settings) (ts : List Table) (r : ParallelRun) : Prop where
  planned : r.planned s = jobsOf s ts
  task : ∀ x ∈ r.tasks, x.Assigned s.options

namespace Assigned

theorem start (s : Settings) (ts : List Table) (store : Store) :
    Assigned s ts { tables := ts, store } :=
  ⟨rfl, fun _ hx => absurd hx List.not_mem_nil⟩

theorem take (h : Assigned s ts r) {turn : Turn} (hr : r.take s permits turn = some r') :
    Assigned s ts r' := by
  refine ⟨(planned_take hr).trans h.planned, fun y hy => ?_⟩
  cases turn with
  | assign =>
      obtain ⟨t, rest, -, ⟨owner, -, rfl⟩ | ⟨-, rfl⟩⟩ := eq_of_assign hr
      · rcases List.mem_append.1 hy with hy | hy
        · exact h.task y hy
        · cases List.mem_singleton.1 hy
          exact ⟨fun hne => absurd rfl hne, nofun⟩
      · rcases List.mem_append.1 hy with hy | hy
        · exact h.task y hy
        · cases List.mem_singleton.1 hy
          exact ⟨fun _ => rfl, nofun⟩
  | advance i =>
      obtain ⟨x, step, hx, hstep, rfl⟩ := eq_of_advance hr
      obtain hy | rfl := List.mem_or_eq_of_mem_set hy
      · exact h.task y hy
      · exact (h.task x (List.mem_of_getElem? hx)).advance hstep r.store
  | collect i =>
      obtain ⟨x, status, -, -, rfl⟩ := eq_of_collect hr
      obtain hy | rfl := List.mem_or_eq_of_mem_set hy
      · exact h.task y hy
      · exact ⟨fun hne => absurd rfl hne, nofun⟩

theorem after (h : Assigned s ts r) {turns : List Turn}
    (hr : r.after s permits turns = some r') : Assigned s ts r' := by
  induction turns generalizing r with
  | nil =>
      cases hr
      exact h
  | cons turn turns ih =>
      rw [after_cons] at hr
      obtain ⟨r₁, hturn, hr⟩ := Option.bind_eq_some_iff.1 hr
      exact ih (h.take hturn) hr

/-- What a run may write next is what one of the jobs fills. -/
theorem exists_fills (h : Assigned s ts r) (hp : r.MayWrite s p) :
    ∃ j ∈ jobsOf s ts, j.Fills s.options p := by
  obtain ⟨x, hx, step, hstep, hp⟩ := hp
  refine ⟨x.job, ?_, (h.task x hx).fills hstep hp⟩
  rw [← h.planned]
  exact List.mem_append_left _ (List.mem_map_of_mem hx)

end Assigned

end ParallelRun

/-! ### Runs -/

namespace Settings

variable {s : Settings} {ts : List Table} {p : Path}

/-- Some run on the tables may write the path: one that handles them one after another, or one that
handles several at once, at some moment. -/
def MayWrite (s : Settings) (ts : List Table) (p : Path) : Prop :=
  (runTables s ts).MayWrite p ∨ ∃ store permits turns r,
    ({ tables := ts, store } : ParallelRun).after s permits turns = some r ∧ r.MayWrite s p

/-- The tables whose jobs fill a path own it. -/
theorem exists_fills_iff : (∃ j ∈ jobsOf s ts, j.Fills s.options p) ↔
    ∃ k t, s.Owns ts p k t ∧ s.pathOf t = p ∧ ∃ m, Model.generateTable s.options t = .ok m := by
  constructor
  · rintro ⟨j, hj, hown, rfl, hm⟩
    obtain ⟨k, hk⟩ := List.mem_iff_getElem?.1 hj
    have howns := owns_of_owner_eq_none hk hown
    refine ⟨k, j.table, howns, ?_, hm⟩
    rw [getElem?_jobsOf, howns.1, Option.map_some] at hk
    exact congrArg Job.path (Option.some.inj hk)
  · rintro ⟨k, t, howns, rfl, hm⟩
    have hk := owner_of_getElem? howns.1 howns
    rw [if_pos rfl] at hk
    exact ⟨_, List.mem_of_getElem? hk, rfl, rfl, hm⟩

/-- A run may write the paths of the tables that own them and generate, and no others. -/
theorem mayWrite_iff : s.MayWrite ts p ↔
    ∃ k t, s.Owns ts p k t ∧ s.pathOf t = p ∧ ∃ m, Model.generateTable s.options t = .ok m := by
  rw [← exists_fills_iff]
  constructor
  · rintro (hp | ⟨store, permits, turns, r, hr, hp⟩)
    · exact (mayWrite_runTables s ts p).1 hp
    · exact ((ParallelRun.Assigned.start s ts store).after hr).exists_fills hp
  · intro h
    exact Or.inl ((mayWrite_runTables s ts p).2 h)

/-- The folder that the name of a table's file stands in, seen from the current directory. -/
def folderOf (s : Settings) (t : Table) : Path :=
  Path.join s.output (Path.folder (fileStem s.options.tablePrefix t.name))

theorem isChild_pathOf_iff (s : Settings) (t : Table) :
    Path.IsChild s.output (s.pathOf t) ↔ Path.Same (s.folderOf t) s.output :=
  Path.isChild_join_iff s.output (fun _ => isName_go) _

theorem same_folderOf {t : Table} (h : '/' ∉ fileStem s.options.tablePrefix t.name) :
    Path.Same (s.folderOf t) s.output := by
  rw [folderOf, Path.folder_of_not_mem h]
  exact Path.same_join_nil s.output

end Settings

/-- A run may write the paths of tables and no others, each where the table is the first that leads
to the path and has a model. Such a path is a direct child of the output directory exactly if the
folder in the table's name, behind the prefix, leads to the output directory itself; so it is where
the name has no slash behind the prefix. -/
theorem written_paths (s : Settings) (ts : List Table) (p : Path) :
    (s.MayWrite ts p ↔ ∃ k t, s.Owns ts p k t ∧ s.pathOf t = p ∧
      ∃ m, Model.generateTable s.options t = .ok m) ∧
    ∀ t, s.pathOf t = p →
      (Path.IsChild s.output p ↔ Path.Same (s.folderOf t) s.output) ∧
      ('/' ∉ fileStem s.options.tablePrefix t.name → Path.IsChild s.output p) := by
  refine ⟨Settings.mayWrite_iff, ?_⟩
  rintro t rfl
  have hchild := s.isChild_pathOf_iff t
  exact ⟨hchild, fun h => hchild.2 (Settings.same_folderOf h)⟩

theorem written_paths_of_mixedTables :
    guardedSettings.MayWrite mixedTables "models/users.go" ∧
      Path.IsChild "models" "models/users.go" := by
  obtain ⟨hwrite, hchild⟩ := written_paths guardedSettings mixedTables "models/users.go"
  have hpath : guardedSettings.pathOf mixedTables[0] = "models/users.go" := by decide +kernel
  have howns : guardedSettings.Owns mixedTables "models/users.go" 0 mixedTables[0] :=
    ⟨rfl, by decide +kernel, nofun⟩
  have hmodel : (Model.generateTable {} mixedTables[0]).toOption.isSome := by decide +kernel
  obtain ⟨m, hm⟩ := Option.isSome_iff_exists.1 hmodel
  have hname : '/' ∉ fileStem guardedSettings.options.tablePrefix mixedTables[0].name := by
    decide +kernel
  exact ⟨hwrite.2 ⟨0, _, howns, hpath, m, eq_ok_of_toOption hm⟩, (hchild _ hpath).2 hname⟩

def escapingSource : Text := "CREATE TABLE `../escape` (id INT)"

def escapingSettings : Settings := { guardedSettings with input := .sql escapingSource }

def escapingTable : Table :=
  { name := "../escape", columns := [{ name := "id", type := { dataType := .sized .int none } }] }

/-- A name in backquotes can lead out of the output directory. -/
theorem name_leads_out_of_output :
    Session.selectTables escapingSettings escapingSource = .ok [escapingTable] ∧
      escapingSettings.MayWrite [escapingTable] "models/../escape.go" ∧
      ¬ Path.IsChild escapingSettings.output "models/../escape.go" ∧
      (((Session.run ["--sql", escapingSource, "--output", "models"]).run Store.handle
        ⟨.empty⟩).2.file? ["escape.go"]).isSome := by
  have htables : (Session.selectTables escapingSettings escapingSource).toOption =
      some [escapingTable] := by decide +kernel
  have hpath : escapingSettings.pathOf escapingTable = "models/../escape.go" := by decide +kernel
  have howns : escapingSettings.Owns [escapingTable] "models/../escape.go" 0 escapingTable :=
    ⟨rfl, by decide +kernel, nofun⟩
  have hmodel : (Model.generateTable {} escapingTable).toOption.isSome := by decide +kernel
  obtain ⟨m, hm⟩ := Option.isSome_iff_exists.1 hmodel
  have hcomponents : (Path.components "models/../escape.go").length = 3 := by decide +kernel
  refine ⟨eq_ok_of_toOption htables, ?_, ?_, by decide +kernel⟩
  · exact Settings.mayWrite_iff.2 ⟨0, _, howns, hpath, m, eq_ok_of_toOption hm⟩
  · rintro ⟨f, -, hf⟩
    rw [hf] at hcomponents
    cases hcomponents

end SchemaModels.Tool
