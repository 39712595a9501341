import SchemaModels.Ddl.Table
import SchemaModels.Text.Ascending

/-!
# Struct tags

The tag of a field holds pairs of a key and a quoted value. The value under `gorm` is a list of
settings that follow the options of the column in their order. Columns of one table share the set
of primary keys known so far, so each of them is marked once.
-/

namespace SchemaModels.Model

open Ddl (Column ColumnOption Expr)

/-- A setting in the value under `gorm`. -/
inductive Setting
  | column (name : Text)
  | type (declaration : Text)
  | primaryKey
  | autoIncrement
  | default (value : Text)
  | unique
  | notNull
  deriving DecidableEq, Repr, Inhabited

def Setting.text : Setting → Text
  | .column n => "column:" ++ n
  | .type d => "type:" ++ d
  | .primaryKey => "primary_key"
  | .autoIncrement => "AUTO_INCREMENT"
  | .default v => "default:" ++ v
  | .unique => "unique"
  | .notNull => "NOT NULL"

def settingsText (settings : List Setting) : Text := Text.join ";" (settings.map Setting.text)

/-- The text of a default value; nothing for an expression that is kept as text. -/
def defaultText : Expr → Text
  | .literal l => l.text
  | .call name _ => name
  | .raw _ => []

/-- The setting that an option calls for where no other column and no other option matters. -/
def settingOf? : ColumnOption → Option Setting
  | .autoIncrement => some .autoIncrement
  | .default e => if defaultText e = [] then none else some (.default (defaultText e))
  | .uniqueKey => some .unique
  | _ => none

/-- The settings for the options of a column, and the primary keys known after them. -/
def optionSettings (name : Text) : TextSet → List ColumnOption → List Setting × TextSet
  | keys, [] => ([], keys)
  | keys, .primaryKey :: os =>
    let (settings, after) := optionSettings name (keys.insert name) os
    (if name ∈ keys then settings else .primaryKey :: settings, after)
  | keys, o :: os =>
    let (settings, after) := optionSettings name keys os
    ((settingOf? o).toList ++ settings, after)

/-- All settings of a column, and the primary keys known after it. A primary key is never `NULL`
and need not say so. -/
def columnSettings (c : Column) (keys : TextSet) (withType : Bool) : List Setting × TextSet :=
  let (settings, after) := optionSettings c.name keys c.options
  (.column c.name ::
    (if withType then [.type c.type.declaration] else []) ++
    (if c.name ∈ keys then [.primaryKey] else []) ++
    settings ++
    (if c.isNotNull && c.name ∉ after then [.notNull] else []), after)

/-- Pairs of a key and a value, with one blank between them. -/
def joinTags (pairs : List (Text × Text)) : Text :=
  Text.join " " (pairs.map fun p => p.1 ++ ":\"" ++ p.2 ++ "\"")

def tagPairs (c : Column) (settings : List Setting) (withJson : Bool) : List (Text × Text) :=
  if withJson then [("json", c.name), ("gorm", settingsText settings)]
  else [("gorm", settingsText settings)]

/-- A text on one line. -/
def withoutNewlines (t : Text) : Text := t.filter (· ≠ '\n')

/-- The last comment among a column's options. -/
def columnComment (c : Column) : Option Text :=
  (c.options.filterMap fun
    | .comment t => some (withoutNewlines t)
    | _ => none).getLast?

end SchemaModels.Model
