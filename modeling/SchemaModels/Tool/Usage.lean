import SchemaModels.Tool.Flags

/-!
# Usage

What a caller is told about the flags: the list of all of them, and why some arguments are refused.
-/

namespace SchemaModels.Tool

namespace Flag

def purpose : Flag → String
  | .config => "Configuration to read"
  | .profile => "Profile of the configuration"
  | .setting .file => "File with the table definitions"
  | .setting .sql => "Table definitions as a text"
  | .setting .output => "Directory of the models"
  | .setting .table => "Tables to generate, between commas; * for all"
  | .setting .jsonTag => "Give every field a json tag"
  | .setting .tablePrefix => "Prefix that table names lose"
  | .setting .columnPrefix => "Prefix that column names lose"
  | .setting .noNullType => "Use no type that admits NULL"
  | .setting .nullStyle => "Types that admit NULL: sql, ptr or disabled"
  | .setting .package => "Package of the models"
  | .setting .gormType => "Put column types into gorm tags"
  | .setting .forceTableName => "Always write the method TableName"
  | .setting .judgeUnsigned => "Map unsigned integers to unsigned types"
  | .setting .acronyms => "Words in capitals, between commas"
  | .setting .update => "Write models again that are there already"
  | .setting .enforcement => "Permit an update of all models"
  | .setting .jobs => "Number of tables generated at once"
  | .setting .charset => "Charset of tables that name none"
  | .setting .collation => "Collation of tables that name none"
  | .dryRun => "Print the models as one file"
  | .verbose => "Say more"
  | .help => "Print this list"
  | .version => "Print the version"

/-- The spellings of a flag with the value that it takes. -/
def form (f : Flag) (name : String) (letter : Option Char) : Text :=
  let value : Text := match f.argument with
    | .required => " VALUE"
    | .attached => "[=BOOL]"
    | .none => ""
  let short : Text := match letter with
    | some c => ['-', c, ',', ' ']
    | none => "    "
  short ++ "--" ++ name.toList ++ value

end Flag

/-- The column in which the purposes of flags begin. -/
def purposeColumn : Nat := 30

/-- The row of a flag in the list. -/
def Flag.row (f : Flag) (name : String) (letter : Option Char) : Text :=
  let form := f.form name letter
  let gap := List.replicate (purposeColumn - form.length) ' '
  "  ".toList ++ form ++ gap ++ f.purpose.toList ++ ['\n']

def usage : Text :=
  "Usage: gormgen [OPTIONS]\n\nOptions:\n".toList ++
    Flag.spellings.flatMap fun (f, name, letter) => f.row name letter

def version : Text := "gormgen 0.1.0\n"

def FlagError.message : FlagError → Text
  | .unknownArgument => "unexpected argument"
  | .invalidValue => "a value is missing or is none of those that are allowed"
  | .valueValidation => "a value is no number"
  | .argumentConflict => "a flag is given more than once"
  | .tooManyValues => "a flag that takes no value has one"
  | .helpRequested => usage
  | .versionRequested => version

end SchemaModels.Tool
