import SchemaModels.Tool.Config
import SchemaModels.Tool.Runner
import SchemaModels.Tool.Usage

/-!
# Sessions

A session is one call of the tool, from its arguments to what it prints and returns. Flags go above
the selected profile, and that above what is built in.
-/

namespace SchemaModels.Tool

open Ddl (Table)

namespace Session

def defaultConfigFile : Path := "gormgen.json"

/-- Reads a configuration; only one that was asked for has to be there. -/
def loadConfig (p : Path) (isRequired : Bool) : Program (Except Error Config) :=
  .call (.read p) fun
    | .ok t => .pure ((Config.ofJson t).mapError .json)
    | .error .notFound => .pure (if isRequired then .error (.configNotFound p) else .ok {})
    | .error e => .pure (.error (.io e))

def settingsOf (c : Config) (fs : Flags) : Except Error Settings := do
  let p ← (c.select fs.profile).mapError .unknownProfile
  Settings.resolve (p.merge fs.overrides)

def readInput : Input → Program (Except Error Text)
  | .sql source => .pure (.ok source)
  | .file p => .call (.read p) fun
    | .ok t => .pure (.ok t)
    | .error e => .pure (.error (.io e))

/-- The tables of a source text that a run is about. -/
def selectTables (s : Settings) (source : Text) : Except Error (List Table) :=
  match Ddl.parse s.defaults source with
  | .ok ss => .ok ((Ddl.tablesOf ss).filter (s.tables.accepts ·.name))
  | .error e => .error (.parse (e.span.position source) e)

/-- The settings of a session and the tables that it is about. -/
def prepare (fs : Flags) : Program (Except Error (Settings × List Table)) := do
  match ← loadConfig (fs.config.getD defaultConfigFile) fs.config.isSome with
  | .error e => return .error e
  | .ok config =>
    match settingsOf config fs with
    | .error e => return .error e
    | .ok s =>
      match ← readInput s.input with
      | .error e => return .error e
      | .ok source => return (selectTables s source).map (s, ·)

/-- What comes of some tables: one source text to print, or files. -/
inductive Product
  | source (t : Text)
  | report (r : Report)
  deriving DecidableEq, Repr, Inhabited

def produce (s : Settings) (dryRun : Bool) (ts : List Table) : Program (Except Error Product) :=
  if dryRun then
    .pure <| match Model.generateTables s.options ts with
      | .ok m => .ok (.source m.render)
      | .error e => .error (.generate e)
  else (runTables s ts).bind fun r => .pure (r.map .report)

/-- How a session ends. -/
inductive Ending
  | help
  | version
  | misuse (e : FlagError)
  /-- Without anything to say. -/
  | done
  | printed (source : Text)
  | failed (e : Error)
  | incomplete (failed total : Nat)
  deriving DecidableEq, Repr, Inhabited

namespace Ending

def exitCode : Ending → UInt32
  | .misuse _ => 2
  | .failed _ | .incomplete _ _ => 1
  | _ => 0

def output : Ending → Text
  | .help => usage
  | .version => Tool.version
  | .printed source => source
  | _ => []

/-- The error that is reported, if there is one. -/
def complaint? : Ending → Option Text
  | .failed e => some e.message
  | .incomplete n total =>
    some (Text.numeral n ++ " of " ++ Text.numeral total ++ " tables failed")
  | _ => none

/-- What goes to the error stream. -/
def diagnosis? : Ending → Option Text
  | .misuse e => some ("error: " ++ e.message)
  | e => e.complaint?.map ("Error: " ++ ·)

def ofProduct (total : Nat) : Product → Ending
  | .source t => .printed t
  | .report r =>
    if r.failures = [] then .done else .incomplete r.failures.length total

end Ending

def withFlags (fs : Flags) : Program Ending := do
  match ← prepare fs with
  | .error e => return .failed e
  | .ok (_, []) => return .done
  | .ok (s, ts) =>
    match ← produce s fs.dryRun ts with
    | .error e => return .failed e
    | .ok p => return .ofProduct ts.length p

/-- A whole session. -/
def run (args : List Text) : Program Ending :=
  match Flags.ofArguments args with
  | .error .helpRequested => .pure .help
  | .error .versionRequested => .pure .version
  | .error e => .pure (.misuse e)
  | .ok fs => withFlags fs

end Session

end SchemaModels.Tool
