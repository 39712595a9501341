import SchemaModels.Tool.Json.Reader
import SchemaModels.Tool.Profile

/-!
# Configurations

A configuration holds profiles by name and may say which of them is used unless another one is asked
for. It is read from JSON, where a profile can set everything but the permission to overwrite all
models.
-/

namespace SchemaModels.Tool

structure Config where
  defaultProfile : Option Text := none
  profiles : List (Text × Profile) := []
  deriving Inhabited

namespace Config

/-- The settings that a configuration can hold, in the order of an array, with their names. -/
def readable : List (Key × String) :=
  [(.file, "file"), (.sql, "sql"), (.output, "output"), (.table, "table"),
   (.jsonTag, "json_tag"), (.tablePrefix, "table_prefix"), (.columnPrefix, "column_prefix"),
   (.noNullType, "no_null_type"), (.nullStyle, "null_style"), (.package, "package"),
   (.gormType, "gorm_type"), (.forceTableName, "force_table_name"),
   (.judgeUnsigned, "judge_unsigned"), (.acronyms, "acronyms"), (.update, "update"),
   (.jobs, "jobs"), (.charset, "charset"), (.collation, "collation")]

theorem not_readable_enforcement : ∀ e ∈ readable, e.1 ≠ .enforcement := by decide

def value : (k : ValueKind) → Json.Reader k.Value
  | .path => Json.string
  | .text => Json.string
  | .switch => Json.switch
  | .count => Json.count
  | .words => Json.array Json.string

/-- A setting whose value may be `null`, which leaves it open. -/
def profileField (k : Key) (name : Text) : Json.Field Profile :=
  ⟨name, fun p => do
    match ← Json.option (value k.kind) with
    | some v => return p.set k v
    | none => return p⟩

def profile : Json.Reader Profile :=
  Json.record (readable.map fun e => profileField e.1 e.2.toList) .empty

def fields : List (Json.Field Config) :=
  [⟨"default_profile", fun c => return { c with defaultProfile := ← Json.option Json.string }⟩,
   ⟨"profiles", fun c => return { c with profiles := ← Json.dictionary profile }⟩]

def ofJson (t : Text) : Except Json.Fault Config := Json.document (Json.record fields {}) t

/-- The profile that is used where none is named. -/
def fallback : Text := "default"

/-- The profile asked for, else the one that the configuration names, else the fallback, which may
be missing. The error is the name that is not found. -/
def select (c : Config) (requested : Option Text) : Except Text Profile :=
  let name := (requested.or c.defaultProfile).getD fallback
  match c.profiles.lookup name with
  | some p => .ok p
  | none => if name = fallback then .ok .empty else .error name

end Config

end SchemaModels.Tool
