import SchemaModels.Text.Numeral
import SchemaModels.Tool.Profile

/-!
# Command-line flags

Most flags set a key of a profile that goes above the one from the configuration. A flag takes a
value, or it is a switch that may be given one behind an equals sign, or it takes none. Arguments
are read from left to right; the value of a flag is only looked at when the next flag begins or the
arguments end.
-/

namespace SchemaModels.Tool

inductive Flag
  | setting (k : Key)
  | config | profile | dryRun | verbose | help | version
  deriving DecidableEq, Repr, Inhabited

/-- Why the arguments give no flags. -/
inductive FlagError
  | unknownArgument
  | invalidValue
  /-- A value that is no number. -/
  | valueValidation
  /-- A flag that was given before. -/
  | argumentConflict
  /-- A value for a flag that takes none. -/
  | tooManyValues
  | helpRequested
  | versionRequested
  deriving DecidableEq, Repr, Inhabited

/-- What a flag takes. -/
inductive Argument
  | required
  /-- Only behind an equals sign; without it the switch is on. -/
  | attached
  | none
  deriving DecidableEq, Repr

namespace Flag

/-- Every flag with its long name and its letter. -/
def spellings : List (Flag × String × Option Char) :=
  [(.config, "config", none), (.profile, "profile", none),
   (.setting .file, "file", some 'f'), (.setting .sql, "sql", some 's'),
   (.setting .output, "output", some 'o'), (.setting .table, "table", some 't'),
   (.setting .jsonTag, "json", some 'j'), (.setting .tablePrefix, "table-prefix", none),
   (.setting .columnPrefix, "col-prefix", none), (.setting .noNullType, "no-null", none),
   (.setting .nullStyle, "null-style", none), (.setting .package, "pkg", some 'p'),
   (.setting .gormType, "with-type", none), (.setting .forceTableName, "with-tablename", none),
   (.setting .judgeUnsigned, "unsigned", none), (.setting .acronyms, "acronyms", none),
   (.setting .update, "update", some 'u'), (.setting .enforcement, "enforcement", some 'e'),
   (.setting .jobs, "jobs", none), (.setting .charset, "charset", none),
   (.setting .collation, "collation", none), (.dryRun, "dry-run", none),
   (.verbose, "verbose", some 'v'), (.help, "help", some 'h'), (.version, "version", some 'V')]

def ofName? (name : Text) : Option Flag :=
  (spellings.find? fun e => e.2.1.toList == name).map (·.1)

def ofLetter? (c : Char) : Option Flag := (spellings.find? (·.2.2 = some c)).map (·.1)

def argument : Flag → Argument
  | .config | .profile => .required
  | .dryRun | .verbose | .help | .version => .none
  | .setting .enforcement => .none
  | .setting k => if k.kind = .switch then .attached else .required

end Flag

structure Flags where
  overrides : Profile := .empty
  config : Option Text := none
  profile : Option Text := none
  dryRun : Bool := false
  verbose : Bool := false
  deriving Inhabited

/-! ### Values -/

/-- A natural number of 64 bits, with a plus sign in front of it or without. -/
def count? (t : Text) : Option UInt64 :=
  let digits := (Text.after? "+" t).getD t
  if digits ≠ [] && digits.all Char.isDigit && Text.value digits < 2 ^ 64 then
    some (.ofNat (Text.value digits))
  else none

def path? (t : Text) : Except FlagError Text :=
  if t = [] then .error .invalidValue else .ok t

/-- Reads the value of a setting; words add to those that are there already. -/
def readSetting : (k : ValueKind) → (before : Option k.Value) → Text → Except FlagError k.Value
  | .words, before, t => .ok (before.getD [] ++ Text.splitOn ',' t)
  | _, some _, _ => .error .argumentConflict
  | .path, none, t => path? t
  | .text, none, t => .ok t
  | .switch, none, t =>
    if t = "true" then .ok true else if t = "false" then .ok false else .error .invalidValue
  | .count, none, t =>
    match count? t with
    | some n => .ok n
    | none => .error .valueValidation

namespace Flags

/-- Gives a value to a flag that takes one. -/
def give (fs : Flags) (f : Flag) (v : Text) : Except FlagError Flags :=
  match f with
  | .setting k => do
    return { fs with overrides := fs.overrides.set k (← readSetting k.kind (fs.overrides.get k) v) }
  | .config => do
    if fs.config.isSome then throw .argumentConflict
    return { fs with config := some (← path? v) }
  | .profile => do
    if fs.profile.isSome then throw .argumentConflict
    return { fs with profile := some v }
  | _ => .error .tooManyValues

/-- Puts a flag without a value. -/
def put (fs : Flags) : Flag → Except FlagError Flags
  | .dryRun => if fs.dryRun then .error .argumentConflict else .ok { fs with dryRun := true }
  | .verbose => if fs.verbose then .error .argumentConflict else .ok { fs with verbose := true }
  | .help => .error .helpRequested
  | .version => .error .versionRequested
  | f => fs.give f "true"

end Flags

/-! ### Arguments -/

/-- The flags so far, and the last one if it takes a value that has not been looked at. -/
structure FlagReading where
  flags : Flags := {}
  pending : Option (Flag × Option Text) := none
  deriving Inhabited

namespace FlagReading

/-- The flags with the one that is pending. -/
def settle (r : FlagReading) : Except FlagError Flags :=
  match r.pending with
  | none => .ok r.flags
  | some (_, none) => .error .invalidValue
  | some (f, some v) => r.flags.give f v

def give (r : FlagReading) (f : Flag) (v : Text) : Except FlagError FlagReading := do
  return ⟨← (← r.settle).give f v, none⟩

def put (r : FlagReading) (f : Flag) : Except FlagError FlagReading := do
  return ⟨← (← r.settle).put f, none⟩

/-- Leaves a flag to wait for its value. -/
def await (r : FlagReading) (f : Flag) : Except FlagError FlagReading := do
  return ⟨← r.settle, some (f, none)⟩

/-- Reads a flag by its long name, from behind the hyphens. -/
def long (r : FlagReading) (body : Text) : Except FlagError FlagReading :=
  let value? : Option Text := (body.dropWhile (· ≠ '=')).tail?
  match Flag.ofName? (body.takeWhile (· ≠ '=')) with
  | none => .error .unknownArgument
  | some f =>
    match f.argument, value? with
    | .none, some _ => .error .tooManyValues
    | .required, none => r.await f
    | _, some v => r.give f v
    | _, none => r.put f

/-- Reads flags by their letters, from behind the hyphen. Behind a flag that takes a value the rest
is the value. -/
def letters : Text → FlagReading → Except FlagError FlagReading
  | [], r => .ok r
  | c :: t, r =>
    match Flag.ofLetter? c with
    | none => .error .unknownArgument
    | some f =>
      match f.argument, t with
      | .required, [] => r.await f
      | .required, '=' :: v => r.give f v
      | .required, v => r.give f v
      | .attached, '=' :: v => r.give f v
      | _, t => do letters t (← r.put f)

/-- An argument that is no flag can only be the value of the last one. -/
def plain (r : FlagReading) (arg : Text) : Except FlagError FlagReading :=
  match r.pending with
  | some (f, none) => .ok { r with pending := some (f, some arg) }
  | _ => .error .unknownArgument

def argument (r : FlagReading) (arg : Text) : Except FlagError FlagReading :=
  match arg with
  | '-' :: '-' :: body => r.long body
  | '-' :: c :: t => letters (c :: t) r
  | _ => r.plain arg

/-- Reads arguments up to their end, or up to two hyphens, behind which nothing may follow. -/
def arguments (r : FlagReading) : List Text → Except FlagError Flags
  | [] => r.settle
  | arg :: args =>
    if arg = "--" then (if args = [] then r.settle else .error .unknownArgument)
    else do arguments (← r.argument arg) args

end FlagReading

def Flags.ofArguments (args : List Text) : Except FlagError Flags :=
  FlagReading.arguments {} args

end SchemaModels.Tool
