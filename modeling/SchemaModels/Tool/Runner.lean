import SchemaModels.Model.Module
import SchemaModels.Tool.Program
import SchemaModels.Tool.Settings

/-!
# Writing model files

One file per table. The first table that leads to a path owns it; every later one fails and writes
nothing. A file that is there already is left alone unless the run updates. A table that fails does
not keep the others from being written.
-/

namespace SchemaModels.Tool

open Ddl (Table)
open Model (Options)

inductive Status
  | skipped (p : Path)
  | written (p : Path)
  | failed (e : Error)
  deriving DecidableEq, Repr, Inhabited

structure Outcome where
  table : Text
  status : Status
  deriving DecidableEq, Repr, Inhabited

/-- What happened to the tables, in the order of their definitions. -/
structure Report where
  outcomes : List Outcome
  deriving DecidableEq, Repr, Inhabited

namespace Report

def failures (r : Report) : List Outcome := r.outcomes.filter (·.status matches .failed _)

def written (r : Report) : Nat := r.outcomes.countP (·.status matches .written _)

def skipped (r : Report) : Nat := r.outcomes.countP (·.status matches .skipped _)

end Report

/-- The name of a table's file without its ending: the prefix is dropped unless nothing would be
left. -/
def fileStem (tablePrefix table : Text) : Text :=
  match Text.after? tablePrefix table with
  | some (c :: t) => c :: t
  | _ => table

def outputPath (output : Path) (table tablePrefix : Text) : Path :=
  Path.join output (fileStem tablePrefix table ++ ".go")

/-- A table with its path and, where the path is taken, the table that owns it. -/
structure Job where
  table : Table
  path : Path
  owner : Option Text
  deriving Inhabited

/-- The table that owns a path, given the paths claimed so far. -/
def ownerOf? (claimed : List (Path × Text)) (p : Path) : Option Text :=
  (claimed.find? fun c => decide (Path.Same c.1 p)).map (·.2)

/-- Gives each table its path, in the order of definition. -/
def assign (output : Path) (tablePrefix : Text) : List (Path × Text) → List Table → List Job
  | _, [] => []
  | claimed, t :: ts =>
    let path := outputPath output t.name tablePrefix
    match ownerOf? claimed path with
    | some owner => ⟨t, path, some owner⟩ :: assign output tablePrefix claimed ts
    | none => ⟨t, path, none⟩ :: assign output tablePrefix (claimed ++ [(path, t.name)]) ts

namespace Job

/-- Generates a model and writes it. -/
def write (o : Options) (j : Job) : Program Status :=
  match Model.generateTable o j.table with
  | .error e => .pure (.failed (.generate e))
  | .ok m => .call (.write j.path m.render) fun
    | .ok _ => .pure (.written j.path)
    | .error e => .pure (.failed (.io e))

/-- The part of a run that handles one table. -/
def run (o : Options) (update : Bool) (j : Job) : Program Status :=
  match j.owner with
  | some owner => .pure (.failed (.duplicateOutput j.path j.table.name owner))
  | none =>
    if update then j.write o
    else .call (.isPresent j.path) fun
      | .ok true => .pure (.skipped j.path)
      | .ok false => j.write o
      | .error e => .pure (.failed (.io e))

def outcome (o : Options) (update : Bool) (j : Job) : Program Outcome :=
  (j.run o update).bind fun status => .pure ⟨j.table.name, status⟩

end Job

def jobsOf (s : Settings) (ts : List Table) : List Job :=
  assign s.output s.options.tablePrefix [] ts

/-- Writes the models of some tables. Only a missing output directory fails the whole run. -/
def runTables (s : Settings) (ts : List Table) : Program (Except Error Report) :=
  .call (.makeDirectories s.output) fun
    | .error e => .pure (.error (.io e))
    | .ok _ =>
      (Program.sequence ((jobsOf s ts).map (Job.outcome s.options s.update))).bind fun outcomes =>
        .pure (.ok ⟨outcomes⟩)

end SchemaModels.Tool
