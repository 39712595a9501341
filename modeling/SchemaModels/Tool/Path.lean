import SchemaModels.Text.Basic

/-!
# Paths

A path is a text with slashes between its parts. Paths are compared by their components: repeated
and final slashes and the parts `.` behind the first one do not count.
-/

namespace SchemaModels.Tool

abbrev Path := Text

namespace Path

def isAbsolute (p : Path) : Bool := p.head? = some '/'

/-- The root, if the path begins there, and the parts between slashes. -/
def parts (p : Path) : List Text :=
  (if isAbsolute p then [['/']] else []) ++ (Text.splitOn '/' p).filter (· ≠ [])

/-- The parts that count: a dot only at the beginning of a path, where it is all that says that
the path begins in the current directory. -/
def components (p : Path) : List Text :=
  match parts p with
  | [] => []
  | first :: others => first :: others.filter (· ≠ ['.'])

def Same (p q : Path) : Prop := components p = components q

instance (p q : Path) : Decidable (Same p q) := inferInstanceAs (Decidable (_ = _))

/-- A path inside a directory; an absolute path stands for itself. -/
def join (directory p : Path) : Path :=
  if isAbsolute p || directory = [] then p
  else if directory.getLast? = some '/' then directory ++ p
  else directory ++ '/' :: p

end Path

end SchemaModels.Tool
