import SchemaModels.Tool.Runner
import SchemaModels.Tool.Store

/-!
# Runs that handle several tables at once

Every table whose path is free gets a task, and so many tasks may be under way at once as there are
permits. Which task goes on next is not determined: a run is what a list of turns makes of it. The
outcomes come in in any order, and the report puts them into that of the tables.
-/

namespace SchemaModels.Tool

open Ddl (Table)
open Model (Options)

/-- Where the task of a table stands. -/
inductive Stage
  /-- For a permit. -/
  | waiting
  | looking
  | generating
  | writing (content : Text)
  | ended (status : Status)
  /-- With its outcome among those that have come in. -/
  | reported
  deriving DecidableEq, Repr, Inhabited

namespace Stage

/-- Whether a task holds a permit. -/
def isActive : Stage → Bool
  | .looking | .generating | .writing _ => true
  | _ => false

/-- The next step of a task, which makes one request at most. -/
def next? (o : Options) (update : Bool) (j : Job) : Stage → Option (Program Stage)
  | .waiting => some (.pure (if update then .generating else .looking))
  | .looking => some <| .call (.isPresent j.path) fun
    | .ok true => .pure (.ended (.skipped j.path))
    | .ok false => .pure .generating
    | .error e => .pure (.ended (.failed (.io e)))
  | .generating => some <| .pure <|
    match Model.generateTable o j.table with
    | .error e => .ended (.failed (.generate e))
    | .ok m => .writing m.render
  | .writing content => some <| .call (.write j.path content) fun
    | .ok _ => .pure (.ended (.written j.path))
    | .error e => .pure (.ended (.failed (.io e)))
  | .ended _ | .reported => none

end Stage

structure Task where
  job : Job
  stage : Stage
  deriving Inhabited

/-- What can happen next in a run. -/
inductive Turn
  /-- The next table is given its path and, where the path is free, a task. -/
  | assign
  /-- The task of the table with this number goes on. -/
  | advance (i : Nat)
  /-- The outcome of the table with this number comes in. -/
  | collect (i : Nat)
  deriving DecidableEq, Repr, Inhabited

structure ParallelRun where
  /-- The tables that have not been given a path. -/
  tables : List Table
  claimed : List (Path × Text) := []
  /-- The tasks by the numbers of their tables. A table whose path is taken has nothing to do. -/
  tasks : List Task := []
  /-- The outcomes in the order in which they came in, with the numbers of their tables. -/
  outcomes : List (Nat × Outcome) := []
  store : Store
  deriving Inhabited

namespace ParallelRun

variable (s : Settings) (permits : Nat)

def assign (r : ParallelRun) : Option ParallelRun :=
  match r.tables with
  | [] => none
  | t :: ts =>
    let path := outputPath s.output t.name s.options.tablePrefix
    match ownerOf? r.claimed path with
    | some owner => some { r with
        tables := ts
        tasks := r.tasks ++ [⟨⟨t, path, some owner⟩, .reported⟩]
        outcomes := r.outcomes ++
          [(r.tasks.length, ⟨t.name, .failed (.duplicateOutput path t.name owner)⟩)] }
    | none => some { r with
        tables := ts
        claimed := r.claimed ++ [(path, t.name)]
        tasks := r.tasks ++ [⟨⟨t, path, none⟩, .waiting⟩] }

/-- A task may begin only where a permit is left. -/
def mayAdvance (r : ParallelRun) : Stage → Bool
  | .waiting => r.tasks.countP (·.stage.isActive) < permits
  | _ => true

def advance (r : ParallelRun) (i : Nat) : Option ParallelRun := do
  let task ← r.tasks[i]?
  let step ← task.stage.next? s.options s.update task.job
  let (stage, store) := step.run Store.handle r.store
  if r.mayAdvance permits task.stage then
    some { r with tasks := r.tasks.set i ⟨task.job, stage⟩, store }
  else none

/-- Outcomes come in when every table has been given its path. -/
def collect (r : ParallelRun) (i : Nat) : Option ParallelRun := do
  let task ← r.tasks[i]?
  match task.stage, r.tables with
  | .ended status, [] => some { r with
      tasks := r.tasks.set i ⟨task.job, .reported⟩
      outcomes := r.outcomes ++ [(i, ⟨task.job.table.name, status⟩)] }
  | _, _ => none

def take (r : ParallelRun) : Turn → Option ParallelRun
  | .assign => r.assign s
  | .advance i => r.advance s permits i
  | .collect i => r.collect i

/-- The run after some turns, if each of them can be taken. -/
def after (r : ParallelRun) : List Turn → Option ParallelRun
  | [] => some r
  | turn :: turns => do after (← r.take s permits turn) turns

def isOver (r : ParallelRun) : Bool := r.tables.isEmpty && r.tasks.all (·.stage = .reported)

def report (r : ParallelRun) : Report :=
  ⟨(r.outcomes.mergeSort fun a b => a.1 ≤ b.1).map (·.2)⟩

end ParallelRun

end SchemaModels.Tool
