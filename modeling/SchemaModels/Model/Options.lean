import SchemaModels.Naming.Camel

/-!
# Options of the generator

Everything that a user can choose about the structs made from tables.
-/

namespace SchemaModels.Model

/-- How a column that may be `NULL` is represented. -/
inductive NullStyle
  /-- As a plain value, which cannot be `NULL`. -/
  | disabled
  /-- As a wrapper from `database/sql`. -/
  | wrapped
  /-- As a pointer to the plain value. -/
  | pointer
  deriving DecidableEq, Repr, Inhabited

namespace NullStyle

def name : NullStyle → Text
  | .disabled => "disabled"
  | .wrapped => "sql"
  | .pointer => "ptr"

/-- The names under which a style is known. -/
def names : List (String × NullStyle) :=
  [("disabled", .disabled), ("disable", .disabled), ("none", .disabled),
   ("sql", .wrapped), ("wrapped", .wrapped), ("ptr", .pointer), ("pointer", .pointer)]

/-- The style that a name means, in any letter case and with blanks around it. -/
def ofText? (t : Text) : Option NullStyle :=
  let key := Text.lower (Text.trim t)
  (names.find? fun e => e.1.toList == key).map (·.2)

theorem ofText?_name (s : NullStyle) : ofText? s.name = some s := by cases s <;> rfl

end NullStyle

/-- The message for a name that means no style. -/
def unknownNullStyle (t : Text) : Text :=
  "unknown null style '" ++ t ++ "' (expected sql, ptr or disabled)"

structure Options where
  jsonTag : Bool := false
  tablePrefix : Text := []
  columnPrefix : Text := []
  /-- Overrides the null style: no column may be `NULL`. -/
  noNullType : Bool := false
  nullStyle : NullStyle := .wrapped
  package : Text := "model"
  gormType : Bool := false
  forceTableName : Bool := false
  judgeUnsigned : Bool := false
  acronyms : Naming.Acronyms := .standard
  deriving DecidableEq, Inhabited

/-- The null style in force. -/
def Options.effectiveNullStyle (o : Options) : NullStyle :=
  if o.noNullType then .disabled else o.nullStyle

end SchemaModels.Model
