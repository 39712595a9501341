import SchemaModels.Tool.Session

/-!
# The command line

Answers the requests of a session from the disk, prints what it ends with and returns its exit
code.
-/

namespace SchemaModels.Tool

/-- The number of a system error; some calls give its negative. -/
def systemNumber (code : UInt32) : UInt32 := if code < 0x80000000 then code else 0 - code

def IoError.ofSystem : IO.Error → IoError
  | .noFileOrDirectory .. => .notFound
  | .alreadyExists .. => .alreadyExists
  | .inappropriateType _ code _ =>
    if systemNumber code = 20 then .notADirectory else .isADirectory
  | .userError _ => .invalidData
  | .invalidArgument _ code _ =>
    if systemNumber code = 36 then .invalidFilename else .invalidInput
  | _ => .other

/-- The result of an action on the disk, or the kind of its failure. -/
def attempt (action : IO α) : IO (Except IoError α) := do
  try return .ok (← action) catch e => return .error (.ofSystem e)

def perform : (r : Request) → IO (Except IoError r.Answer)
  | .read p => attempt do return (← IO.FS.readFile (String.ofList p)).toList
  | .isPresent p => do
    match ← attempt (IO.FS.Handle.mk (String.ofList p) .read) with
    | .ok _ => return .ok true
    | .error .notFound => return .ok false
    | .error e => return .error e
  | .write p content => attempt (IO.FS.writeFile (String.ofList p) (String.ofList content))
  | .makeDirectories p => attempt (IO.FS.createDirAll (String.ofList p))

def Program.perform : Program α → IO α
  | .pure a => return a
  | .call r next => do (next (← Tool.perform r)).perform

end SchemaModels.Tool

open SchemaModels.Tool in
def main (args : List String) : IO UInt32 := do
  let ending ← (Session.run (args.map String.toList)).perform
  IO.print (String.ofList ending.output)
  if let some diagnosis := ending.diagnosis? then
    IO.eprintln (String.ofList diagnosis)
  return ending.exitCode
