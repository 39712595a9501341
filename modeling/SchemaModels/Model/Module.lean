import SchemaModels.Ddl.Statement.Parser
import SchemaModels.Model.Struct

/-!
# Modules

A module is one Go file before it is written: its package, its imports, each once and in order, and
its structs in the order of their tables. The first table that fails, fails the module.
-/

namespace SchemaModels.Model

open Ddl (Statement Table TableDefaults)

structure Module where
  package : Text
  imports : TextSet
  structs : List Text
  deriving DecidableEq, Inhabited

namespace Module

def isEmpty (m : Module) : Bool := m.structs.isEmpty

def render (m : Module) : Text := Go.renderFile m.package m.imports.toList m.structs

end Module

/-- The struct of a table as formatted text. -/
def renderStruct (s : Go.Struct) : Except GenerateError Text :=
  s.render.mapError (.format s.tableName · s.draft)

/-- The struct of a table as text, and the imports it needs. -/
def generateStruct (o : Options) (t : Table) : Except GenerateError (Text × TextSet) := do
  let s ← structOf o t
  return (← renderStruct s, s.imports)

/-- The module of some tables. -/
def generateTables (o : Options) (ts : List Table) : Except GenerateError Module := do
  let parts ← ts.mapM (generateStruct o)
  return ⟨o.package, (parts.map (·.2)).foldr TextSet.union .empty, parts.map (·.1)⟩

/-- The module of a single table. -/
def generateTable (o : Options) (t : Table) : Except GenerateError Module := do
  let (text, imports) ← generateStruct o t
  return ⟨o.package, imports, [text]⟩

/-- The module of the tables among some statements. -/
def generate (o : Options) (ss : List Statement) : Except GenerateError Module :=
  generateTables o (Ddl.tablesOf ss)

def generateSource (defaults : TableDefaults) (o : Options) (source : Text) :
    Except GenerateError Module := do
  let ss ← (Ddl.parse defaults source).mapError .parse
  generate o ss

end SchemaModels.Model
