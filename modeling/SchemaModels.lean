import SchemaModels.Main
import SchemaModels.Tool.Store
import SchemaModels.Proofs.Results
import SchemaModels.Proofs.Tool.GivenFlags
import SchemaModels.Proofs.Tool.ReaderResults
import SchemaModels.Proofs.Tool.UpdateGuard
import SchemaModels.Proofs.Text.Parts
import SchemaModels.Proofs.Text.Ends
import SchemaModels.Proofs.Text.Characters
import SchemaModels.Proofs.Model.Settings
import SchemaModels.Proofs.Model.Fields
import SchemaModels.Proofs.Model.PrimaryKeys
import SchemaModels.Proofs.Go.TagReading
import SchemaModels.Proofs.Model.SettingReading
import SchemaModels.Proofs.Model.TagRoundTrip
import SchemaModels.Proofs.Go.Scanning
import SchemaModels.Proofs.Go.FieldLines
import SchemaModels.Proofs.Go.Layout
import SchemaModels.Proofs.Tool.DirectoryPaths
import SchemaModels.Proofs.Tool.Siblings
import SchemaModels.Proofs.Tool.FilePrograms
import SchemaModels.Proofs.Tool.Owners
import SchemaModels.Proofs.Tool.SequentialRun
import SchemaModels.Tool.ParallelRun
import SchemaModels.Proofs.Tool.TaskRest
import SchemaModels.Proofs.Tool.Turns
import SchemaModels.Proofs.Tool.ParallelRun
import SchemaModels.Proofs.Tool.RunOrder
import SchemaModels.Proofs.Tool.NewDirectories
import SchemaModels.Proofs.Tool.RunEffects
import SchemaModels.Proofs.Ddl.Detached
import SchemaModels.Proofs.Ddl.Literals
import SchemaModels.Proofs.Ddl.Tokens
import SchemaModels.Proofs.Ddl.Blanks
import SchemaModels.Proofs.Ddl.Lexemes
import SchemaModels.Proofs.Ddl.Surroundings
import SchemaModels.Proofs.Ddl.Agreement
import SchemaModels.Proofs.Ddl.TokenAgreement
import SchemaModels.Proofs.Ddl.RepetitionAgreement
import SchemaModels.Proofs.Ddl.GroupAgreement
import SchemaModels.Proofs.Ddl.ColumnAgreement
import SchemaModels.Proofs.Ddl.TableAgreement
import SchemaModels.Proofs.Ddl.StatementAgreement
import SchemaModels.Proofs.Ddl.StatementRuns
import SchemaModels.Proofs.Ddl.StatementLocality
import SchemaModels.Proofs.Ddl.Spelling
import SchemaModels.Proofs.Ddl.Canonical
import SchemaModels.Proofs.Ddl.Spells
import SchemaModels.Proofs.Ddl.SpelledWords
import SchemaModels.Proofs.Ddl.CanonicalLexemes
import SchemaModels.Proofs.Ddl.Parses
import SchemaModels.Proofs.Ddl.CanonicalTypes
import SchemaModels.Proofs.Ddl.CanonicalColumns
import SchemaModels.Proofs.Ddl.CanonicalTables
import SchemaModels.Proofs.Ddl.CapturedGroups
import SchemaModels.Proofs.Go.StructReading
import SchemaModels.Proofs.Model.StructText
import SchemaModels.Proofs.Go.LineRuns
import SchemaModels.Proofs.Go.Respacing
import SchemaModels.Proofs.Go.FieldRows
import SchemaModels.Proofs.Go.BlankLines
import SchemaModels.Proofs.Go.JoinedTexts
import SchemaModels.Proofs.Go.CanonicalFiles
import SchemaModels.Proofs.Go.Reformatting
import SchemaModels.Proofs.Ddl.Skipping
import SchemaModels.Proofs.Ddl.Tiling
import SchemaModels.Proofs.Ddl.Offsets
import SchemaModels.Proofs.Ddl.OffsetLiterals
import SchemaModels.Proofs.Ddl.OffsetTokens
import SchemaModels.Proofs.Model.Imports
import SchemaModels.Proofs.Model.CanonicalModules
import SchemaModels.Proofs.Go.StringLiterals
import SchemaModels.Proofs.Go.DraftLines
import SchemaModels.Proofs.Model.FieldNames
import SchemaModels.Proofs.Model.Success
import SchemaModels.Proofs.Go.StructLines
import SchemaModels.Proofs.Model.Comments
import SchemaModels.Proofs.Model.JoinedModules
import SchemaModels.Proofs.Tool.SetFlags
import SchemaModels.Proofs.Tool.Precedence
import SchemaModels.Proofs.Tool.ExistingDirectories
import SchemaModels.Proofs.Tool.RunAgain
import SchemaModels.Proofs.Tool.DirectChildren
import SchemaModels.Proofs.Tool.WrittenPaths
import SchemaModels.Proofs.Naming.CamelWords
import SchemaModels.Proofs.Naming.PluralEndings
import SchemaModels.Proofs.Naming.PluralCapitals
import SchemaModels.Proofs.Naming.PluralSpellings
import SchemaModels.Proofs.Naming.RecognisedPlurals
import SchemaModels.Proofs.Ddl.Balance
import SchemaModels.Proofs.Ddl.TableGrammar
import SchemaModels.Proofs.Ddl.TakenColumns
import SchemaModels.Proofs.Ddl.TakenTables
import SchemaModels.Proofs.Ddl.TakenTokens
import SchemaModels.Proofs.Ddl.TakingReaders
import SchemaModels.Proofs.Model.SingleColumns
import SchemaModels.Proofs.Model.StructNames
import SchemaModels.Proofs.Go.Paragraphs
import SchemaModels.Proofs.Go.KeptLines
import SchemaModels.Proofs.Go.Literals
import SchemaModels.Proofs.Go.KeptLiterals
import SchemaModels.Proofs.Ddl.Stepwise
import SchemaModels.Proofs.Ddl.ErrorTokens
import SchemaModels.Proofs.Ddl.Postconditions
import SchemaModels.Proofs.Ddl.ParsedTables
import SchemaModels.Proofs.Ddl.SingleColumn
import SchemaModels.Proofs.Ddl.IntegerRange
import SchemaModels.Proofs.Ddl.ReportedTypes
import SchemaModels.Proofs.Ddl.LookAhead
import SchemaModels.Proofs.Ddl.LookAheadTokens
import SchemaModels.Proofs.Ddl.NameTokens
import SchemaModels.Proofs.Ddl.NamePlaces
import SchemaModels.Proofs.Ddl.FreshNames
import SchemaModels.Proofs.Ddl.DeclaredNames
import SchemaModels.Proofs.Ddl.RenamedReaders
import SchemaModels.Proofs.Ddl.RenamedNames
import SchemaModels.Proofs.Ddl.QuotedLiterals
import SchemaModels.Proofs.Ddl.InsertedLayout
import SchemaModels.Proofs.Go.AlignedColumns
import SchemaModels.Proofs.Go.LiteralValues
import SchemaModels.Proofs.Go.ReturnedNames
import SchemaModels.Proofs.Go.WholeTexts
import SchemaModels.Proofs.Ddl.Progress
import SchemaModels.Proofs.Ddl.Loops
import SchemaModels.Proofs.Ddl.Termination
