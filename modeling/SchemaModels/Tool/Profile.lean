import SchemaModels.Text.Basic

/-!
# Profiles

A profile sets some of the settings of a run and leaves the others open. `merge` lays one profile
over another; `get_merge` says that the upper one decides where it sets something.
-/

namespace SchemaModels.Tool

/-- The settings that a profile can hold. -/
inductive Key
  | file | sql | output | table
  | jsonTag | tablePrefix | columnPrefix | noNullType | nullStyle | package | gormType
  | forceTableName | judgeUnsigned | acronyms | update | enforcement | jobs | charset | collation
  deriving DecidableEq, Repr, Inhabited

/-- The kinds of values. -/
inductive ValueKind
  | path | text | switch | count | words
  deriving DecidableEq, Repr, Inhabited

abbrev ValueKind.Value : ValueKind → Type
  | .path | .text => Text
  | .switch => Bool
  | .count => UInt64
  | .words => List Text

def Key.kind : Key → ValueKind
  | .file | .output => .path
  | .sql | .table | .tablePrefix | .columnPrefix | .nullStyle | .package | .charset
  | .collation => .text
  | .jsonTag | .noNullType | .gormType | .forceTableName | .judgeUnsigned | .update
  | .enforcement => .switch
  | .jobs => .count
  | .acronyms => .words

abbrev Key.Value (k : Key) : Type := k.kind.Value

structure Profile where
  get : (k : Key) → Option k.Value

namespace Profile

def empty : Profile := ⟨fun _ => none⟩

instance : Inhabited Profile := ⟨empty⟩

def set (p : Profile) (k : Key) (v : k.Value) : Profile :=
  ⟨fun k' => if h : k' = k then some (h ▸ v) else p.get k'⟩

@[simp] theorem get_set_self (p : Profile) (k : Key) (v : k.Value) :
    (p.set k v).get k = some v := by
  simp [set]

theorem get_set_of_ne (p : Profile) {k k' : Key} (v : k.Value) (h : k' ≠ k) :
    (p.set k v).get k' = p.get k' := by
  simp [set, h]

/-- Lays a profile over another one. -/
def merge (below above : Profile) : Profile := ⟨fun k => (above.get k).or (below.get k)⟩

@[simp] theorem get_merge (below above : Profile) (k : Key) :
    (below.merge above).get k = (above.get k).or (below.get k) := rfl

theorem merge_empty (p : Profile) : p.merge empty = p := rfl

theorem empty_merge (p : Profile) : empty.merge p = p := by
  simp [merge, empty]

end Profile

end SchemaModels.Tool
