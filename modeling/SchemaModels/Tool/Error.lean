import SchemaModels.Model.Struct
import SchemaModels.Tool.Json.Reader
import SchemaModels.Tool.Program

/-!
# Errors of a run

Everything that can stop a run, or one table of it, with its message. What the system or the form of
a configuration has to say is not part of the message.
-/

namespace SchemaModels.Tool

open Ddl (ParseError Position)

inductive Error
  | io (e : IoError)
  | configNotFound (p : Path)
  | json (f : Json.Fault)
  | unknownProfile (name : Text)
  | nullStyle (name : Text)
  | noInput
  | parse (p : Position) (e : ParseError)
  | unguardedUpdate
  | duplicateOutput (p : Path) (table owner : Text)
  | generate (e : Model.GenerateError)
  deriving DecidableEq, Repr, Inhabited

def Error.message : Error → Text
  | .io _ => "IO error"
  | .configNotFound p => "Invalid config file '" ++ p ++ "': file not found"
  | .json _ => "Serialization error"
  | .unknownProfile n => "Profile '" ++ n ++ "' not found in config"
  | .nullStyle n => Model.unknownNullStyle n
  | .noInput => "No input: pass --sql or --file"
  | .parse p e =>
    "Parse error at line " ++ Text.numeral p.line ++ ", column " ++ Text.numeral p.column ++ ": " ++
      e.report
  | .unguardedUpdate =>
    "Refusing to overwrite the models of all tables: name tables with --table or pass " ++
      "--enforcement"
  | .duplicateOutput p t o =>
    "Table '" ++ t ++ "' would overwrite " ++ p ++ ", already generated for table '" ++ o ++ "'"
  | .generate e => e.message

end SchemaModels.Tool
