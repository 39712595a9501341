import SchemaModels.Proofs.Tool.SequentialRun
import SchemaModels.Tool.ParallelRun

/-!
# What is left of a task

A step of a task is the beginning of what is left of it (`Stage.rest_eq_bind`). So what is left
comes, at every moment of a run, to what the whole of the job comes to on its own in the store at
the start (`Task.Sound`), for as long as nothing is changed at the job's own path.
-/

namespace SchemaModels.Tool

open Model (Options)
open Path (IsName)

namespace Stage

/-- What a task has yet to do. -/
def rest (o : Options) (update : Bool) (j : Job) : Stage → Program Status
  | .waiting => j.run o update
  | .looking => .call (.isPresent j.path) fun
    | .ok true => .pure (.skipped j.path)
    | .ok false => j.write o
    | .error e => .pure (.failed (.io e))
  | .generating => j.write o
  | .writing content => .call (.write j.path content) fun
    | .ok _ => .pure (.written j.path)
    | .error e => .pure (.failed (.io e))
  | .ended status => .pure status
  | .reported => .pure default

variable {o : Options} {update : Bool} {j : Job}

theorem rest_eq_bind (hj : j.owner = none) {stage : Stage} {step : Program Stage}
    (h : stage.next? o update j = some step) :
    stage.rest o update j = step.bind (rest o update j) := by
  cases stage with
  | waiting =>
      cases h
      unfold rest Job.run
      rw [hj]
      cases update <;> rfl
  | looking =>
      cases h
      simp only [rest, Program.bind]
      congr 1
      funext answer
      rcases answer with e | b
      · rfl
      · cases b <;> rfl
  | generating =>
      cases h
      simp only [rest, Job.write, Program.pure_bind]
      cases Model.generateTable o j.table with
      | error e => rfl
      | ok m =>
          dsimp only
          congr 1
          funext answer
          cases answer <;> rfl
  | writing content =>
      cases h
      simp only [rest, Program.bind]
      congr 1
      funext answer
      cases answer <;> rfl
  | ended status => cases h
  | reported => cases h

theorem isAbout_rest (stage : Stage) : (stage.rest o update j).IsAbout j.path := by
  cases stage with
  | waiting => exact j.isAbout_run o update
  | looking =>
      refine ⟨Or.inl rfl, fun answer => ?_⟩
      rcases answer with e | b
      · trivial
      · cases b
        · exact j.isAbout_write o
        · trivial
  | generating => exact j.isAbout_write o
  | writing content =>
      refine ⟨Or.inr ⟨content, rfl⟩, fun answer => ?_⟩
      cases answer <;> trivial
  | ended status => trivial
  | reported => trivial

theorem isAbout_next? {stage : Stage} {step : Program Stage}
    (h : stage.next? o update j = some step) : step.IsAbout j.path := by
  cases stage with
  | waiting =>
      cases h
      trivial
  | looking =>
      cases h
      refine ⟨Or.inl rfl, fun answer => ?_⟩
      rcases answer with e | b
      · trivial
      · cases b <;> trivial
  | generating =>
      cases h
      trivial
  | writing content =>
      cases h
      refine ⟨Or.inr ⟨content, rfl⟩, fun answer => ?_⟩
      cases answer <;> trivial
  | ended status => cases h
  | reported => cases h

/-- The number of turns that a task still needs. -/
def turnsLeft : Stage → Nat
  | .waiting => 5
  | .looking => 4
  | .generating => 3
  | .writing _ => 2
  | .ended _ => 1
  | .reported => 0

/-- A step brings a task on, and an outcome does not come in by itself. -/
theorem turnsLeft_next? {stage : Stage} {step : Program Stage}
    (h : stage.next? o update j = some step) (store : Store) :
    (step.run Store.handle store).1.turnsLeft < stage.turnsLeft ∧
      (step.run Store.handle store).1 ≠ .reported := by
  cases stage with
  | waiting =>
      cases h
      cases update <;> simp [Program.run, turnsLeft]
  | looking =>
      cases h
      simp only [Program.run, Store.handle_isPresent]
      rcases Store.presence (store.look j.path) with e | b
      · simp [Program.run, turnsLeft]
      · cases b <;> simp [Program.run, turnsLeft]
  | generating =>
      cases h
      cases Model.generateTable o j.table with
      | error e => simp [Program.run, turnsLeft]
      | ok m => simp [Program.run, turnsLeft]
  | writing content =>
      cases h
      simp only [Program.run, Store.handle_write]
      cases Store.writeAnswer (store.look j.path) with
      | error e => simp [Program.run, turnsLeft]
      | ok _ => simp [Program.run, turnsLeft]
  | ended status => cases h
  | reported => cases h

theorem isSome_next?_of_ne {stage : Stage} (hended : ∀ status, stage ≠ .ended status)
    (hreported : stage ≠ .reported) : (stage.next? o update j).isSome := by
  cases stage with
  | ended status => exact absurd rfl (hended status)
  | reported => exact absurd rfl hreported
  | _ => rfl

end Stage

namespace Task

variable (s : Settings) (made : Store)

def rest (x : Task) : Program Status := x.stage.rest s.options s.update x.job

/-- From a store in the middle of a run, what is left of a task comes to what the job comes to on
its own in the store at the start. A task without a file to write has nothing left. -/
structure Sound (store : Store) (x : Task) : Prop where
  reported : x.job.owner ≠ none → x.stage = .reported
  status : x.stage ≠ .reported →
    ((x.rest s).run Store.handle store).1 = (x.job.alone s made).1
  seen : x.job.owner = none → ((x.rest s).run Store.handle store).2.look x.job.path =
    (x.job.alone s made).2.look x.job.path

variable {s : Settings} {made store store' : Store} {x : Task} {f : Text}

theorem isAbout_rest : (x.rest s).IsAbout x.job.path := Stage.isAbout_rest x.stage

theorem Sound.of_look_eq (h : x.Sound s made store) (hf : IsName f)
    (hx : x.job.path = Path.join s.output f)
    (hlook : x.job.owner = none → store'.look x.job.path = store.look x.job.path) :
    x.Sound s made store' := by
  cases hown : x.job.owner with
  | some owner =>
      have hrep := h.reported (by simp [hown])
      exact ⟨fun _ => hrep, fun hne => absurd hrep hne, fun hnone => by simp [hown] at hnone⟩
  | none =>
      have habout := isAbout_rest (s := s) (x := x)
      have hlook := hlook hown
      rw [hx] at habout hlook
      obtain ⟨hstatus, hseen⟩ := Program.run_congr hf habout hlook
      rw [← hx] at hseen
      exact ⟨fun hne => absurd hown hne, fun hne => hstatus.trans (h.status hne),
        fun _ => hseen.trans (h.seen hown)⟩

/-- A task that begins has the whole job before it. -/
theorem sound_waiting (hf : IsName f) {j : Job} (hj : j.path = Path.join s.output f)
    (hown : j.owner = none) (hlook : store.look j.path = made.look j.path) :
    Sound s made store ⟨j, .waiting⟩ := by
  obtain ⟨hstatus, hseen⟩ := Job.alone_congr hf hj hlook
  exact ⟨fun hne => absurd hown hne, fun _ => hstatus, fun _ => hseen⟩

theorem sound_reported_of_owner {j : Job} {owner : Text} (hown : j.owner = some owner) :
    Sound s made store ⟨j, .reported⟩ :=
  ⟨fun _ => rfl, fun hne => absurd rfl hne, fun hnone => by simp [hown] at hnone⟩

theorem Sound.owner_eq_none (h : x.Sound s made store) (hx : x.stage ≠ .reported) :
    x.job.owner = none := by
  by_cases hown : x.job.owner = none
  · exact hown
  · exact absurd (h.reported hown) hx

theorem Sound.advance (h : x.Sound s made store) {step : Program Stage}
    (hstep : x.stage.next? s.options s.update x.job = some step) :
    Sound s made (step.run Store.handle store).2
      ⟨x.job, (step.run Store.handle store).1⟩ := by
  have hne : x.stage ≠ .reported := by
    intro he
    rw [he] at hstep
    cases hstep
  have hown := h.owner_eq_none hne
  have hrest : (x.rest s).run Store.handle store =
      ((step.run Store.handle store).1.rest s.options s.update x.job).run Store.handle
        (step.run Store.handle store).2 := by
    rw [rest, Stage.rest_eq_bind hown hstep, Program.run_bind]
  refine ⟨fun hne' => absurd hown hne', fun _ => ?_, fun _ => ?_⟩
  · rw [← h.status hne, hrest]
    rfl
  · rw [← h.seen hown, hrest]
    rfl

/-- Where a task has ended, its status is the one of the job on its own. -/
theorem Sound.status_eq (h : x.Sound s made store) {status : Status}
    (hx : x.stage = .ended status) : (x.job.alone s made).1 = status := by
  have hst := h.status (by simp [hx])
  rw [← hst, rest, hx]
  rfl

theorem Sound.collect (h : x.Sound s made store) {status : Status}
    (hx : x.stage = .ended status) : Sound s made store ⟨x.job, .reported⟩ := by
  refine ⟨fun _ => rfl, fun hne => absurd rfl hne, fun hown => ?_⟩
  have hseen := h.seen hown
  rw [rest, hx] at hseen
  exact hseen

end Task

end SchemaModels.Tool
