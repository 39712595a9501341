import SchemaModels.Tool.NameTree
import SchemaModels.Tool.Program

/-!
# A store of files

The files and directories that a program can reach from its current directory, by their location.
Whatever lies above the current directory, and the root, are directories of which nothing else is
known. `Store.handle` answers the requests of a program.
-/

namespace SchemaModels.Tool

inductive Node
  | directory
  /-- A file with its text; nothing if its bytes are no text. -/
  | file (text : Option Text)
  deriving DecidableEq, Repr, Inhabited

/-- The names from the current directory, or from the root where the first of them is `/`. Names
`..` stand only at the beginning. -/
abbrev Location := List Text

namespace Location

def root : Location := [['/']]

/-- The directories above the current one, the current one, and the root. -/
def isOutside (l : Location) : Bool := l = root || l.all (· = ['.', '.'])

def parent (l : Location) : Location :=
  if l = root then l
  else if l.getLast?.all (· = ['.', '.']) then l ++ ["..".toList]
  else l.dropLast

end Location

/-- The files and directories by their location. -/
structure Store where
  entries : NameTree Node
  deriving DecidableEq, Repr, Inhabited

namespace Store

def node? (s : Store) (l : Location) : Option Node :=
  if l.isOutside then some .directory else s.entries.get? l

def put (s : Store) (l : Location) (n : Node) : Store := ⟨s.entries.put n l⟩

theorem node?_put_self (s : Store) {l : Location} (n : Node) (h : l.isOutside = false) :
    (s.put l n).node? l = some n := by
  have hl : l ≠ [] := fun hl => by simp [hl, Location.isOutside] at h
  simp [node?, put, h, s.entries.get?_put_self n hl]

theorem node?_put_of_ne (s : Store) {l m : Location} (n : Node) (h : m ≠ l) :
    (s.put l n).node? m = s.node? m := by
  simp only [node?, put, s.entries.get?_put_of_ne n h]

theorem put_eq_self {s : Store} {l : Location} {n : Node} (hl : l.isOutside = false)
    (h : s.node? l = some n) : s.put l n = s := by
  simp only [node?, hl, Bool.false_eq_true, if_false] at h
  simp only [put, NameTree.put_eq_self h]

/-! ### Walking -/

/-- One step from a location, which has to be a directory. -/
def step (s : Store) (l : Location) (part : Text) : Except IoError Location :=
  match s.node? l with
  | none => .error .notFound
  | some (.file _) => .error .notADirectory
  | some .directory =>
    if Text.byteLength part > 255 then .error .invalidFilename
    else if part = ['.'] then .ok l
    else if part = ['.', '.'] then .ok l.parent
    else .ok (l ++ [part])

def walk (s : Store) : Location → List Text → Except IoError Location
  | l, [] => .ok l
  | l, part :: parts => do walk s (← s.step l part) parts

/-- Where a walk begins, and the parts that it goes through. -/
def origin : List Text → Location × List Text
  | ['/'] :: others => (.root, others)
  | parts => ([], parts)

/-- The location of a path given by its parts; the last part need not exist. -/
def locate (s : Store) (parts : List Text) : Except IoError Location :=
  let (l, parts) := origin parts
  s.walk l parts

/-- Paths that no request can be about: the empty one, those with a NUL, and those of 4096 bytes and
more. -/
def check (p : Path) : Except IoError Unit :=
  if '\x00' ∈ p then .error .invalidInput
  else if p = [] then .error .notFound
  else if Text.byteLength p ≥ 4096 then .error .invalidFilename
  else .ok ()

/-- The location of a file; a final slash asks for a directory. -/
def locateFile (s : Store) (p : Path) : Except IoError Location := do
  check p
  s.locate (p.parts ++ if p.length > 1 && p.getLast? = some '/' then [['.']] else [])

/-! ### Requests -/

def read (s : Store) (p : Path) : Except IoError Text := do
  match s.node? (← s.locateFile p) with
  | none => throw .notFound
  | some .directory => throw .isADirectory
  | some (.file none) => throw .invalidData
  | some (.file (some t)) => return t

/-- Whether something is at a path; what cannot be reached because a part of the path is missing
is not there. -/
def isPresent (s : Store) (p : Path) : Except IoError Bool :=
  match s.locateFile p with
  | .ok l => .ok (s.node? l).isSome
  | .error .notFound => .ok false
  | .error e => .error e

def write (s : Store) (p : Path) (content : Text) : Except IoError Store := do
  let l ← s.locateFile p
  if s.node? l = some .directory then throw .isADirectory
  return s.put l (.file (some content))

/-- Makes a directory, which may be there already. -/
def makeDirectory (s : Store) (l : Location) : Except IoError Store :=
  match s.node? l with
  | none => .ok (s.put l .directory)
  | some .directory => .ok s
  | some (.file _) => .error .alreadyExists

/-- The answer to a request that changes the store only if it succeeds. -/
def commit (s : Store) : Except IoError Store → Except IoError Unit × Store
  | .ok s' => (.ok (), s')
  | .error e => (.error e, s)

/-- Goes through parts of a path and makes the directories that are missing. What has been made
stays, also if the way does not go on. -/
def makeWay (s : Store) (l : Location) : List Text → Except IoError Unit × Store
  | [] => (.ok (), s)
  | part :: parts =>
    match s.step l part with
    | .error e => (.error e, s)
    | .ok l =>
      match s.makeDirectory l with
      | .error e => (.error e, s)
      | .ok s => s.makeWay l parts

/-- Makes the directory at a path and, where its place is missing, those above it first. -/
def makeDirectories (s : Store) (p : Path) : Except IoError Unit × Store :=
  let make (s : Store) : Except IoError Store := do s.makeDirectory (← s.locate p.parts)
  if p = [] then (.ok (), s)
  else match (do check p; make s) with
    | .error .notFound =>
      let (l, parts) := origin p.components.dropLast
      match s.makeWay l parts with
      | (.error e, s) => (.error e, s)
      | (.ok _, s) => s.commit (make s)
    | made => s.commit made

/-- Answers requests from a store. -/
def handle : Program.Handler Store
  | .read p, s => (s.read p, s)
  | .isPresent p, s => (s.isPresent p, s)
  | .write p content, s => s.commit (s.write p content)
  | .makeDirectories p, s => s.makeDirectories p

end Store

end SchemaModels.Tool
