import SchemaModels.Tool.Path

/-!
# Programs on a file system

What the tool does with files is a value: a program either ends or makes a request and goes on
with the answer. A program says nothing about who answers, so the same one runs on a store of files
and on the disk. `run_bind` says that a program is run part after part.
-/

namespace SchemaModels.Tool

/-- The kinds of failure of a request. -/
inductive IoError
  | notFound | alreadyExists | notADirectory | isADirectory | invalidData | invalidInput
  | invalidFilename
  /-- A failure that only a real disk knows. -/
  | other
  deriving DecidableEq, Repr, Inhabited

inductive Request
  | read (p : Path)
  | isPresent (p : Path)
  | write (p : Path) (content : Text)
  /-- Makes a directory and those above it. -/
  | makeDirectories (p : Path)
  deriving DecidableEq, Repr, Inhabited

def Request.Answer : Request → Type
  | .read _ => Text
  | .isPresent _ => Bool
  | .write _ _ => Unit
  | .makeDirectories _ => Unit

inductive Program (α : Type)
  | pure (a : α)
  | call (r : Request) (next : Except IoError r.Answer → Program α)

namespace Program

def bind (p : Program α) (f : α → Program β) : Program β :=
  match p with
  | .pure a => f a
  | .call r next => .call r fun answer => bind (next answer) f

instance : Monad Program where
  pure := .pure
  bind := bind

@[simp] theorem pure_bind (a : α) (f : α → Program β) : (Program.pure a).bind f = f a := rfl

theorem bind_pure (p : Program α) : p.bind .pure = p := by
  induction p with
  | pure a => rfl
  | call r next ih => simp [bind, ih]

theorem bind_assoc (p : Program α) (f : α → Program β) (g : β → Program γ) :
    (p.bind f).bind g = p.bind fun a => (f a).bind g := by
  induction p with
  | pure a => rfl
  | call r next ih => simp [bind, ih]

/-- The program of a single request. -/
def request (r : Request) : Program (Except IoError r.Answer) := .call r .pure

/-- Runs programs one after another. -/
def sequence : List (Program α) → Program (List α)
  | [] => .pure []
  | p :: ps => p.bind fun a => (sequence ps).bind fun as => .pure (a :: as)

/-! ### Running -/

/-- How requests are answered from a state, and the state that they leave. -/
abbrev Handler (σ : Type) := (r : Request) → σ → Except IoError r.Answer × σ

/-- The result of a program whose requests are answered from a state, and the state at its end. -/
def run (handle : Handler σ) : Program α → σ → α × σ
  | .pure a, s => (a, s)
  | .call r next, s =>
    let (answer, s) := handle r s
    (next answer).run handle s

theorem run_bind (handle : Handler σ) (p : Program α) (f : α → Program β) (s : σ) :
    (p.bind f).run handle s = (f (p.run handle s).1).run handle (p.run handle s).2 := by
  induction p generalizing s with
  | pure a => rfl
  | call r next ih => simp only [bind, run, ih]

end Program

end SchemaModels.Tool
