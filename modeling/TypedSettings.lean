import TypedSettings.Json.Pointer
import TypedSettings.Json.Printer
import TypedSettings.Main
import TypedSettings.Options.Reader
import TypedSettings.Schema.Record
import TypedSettings.Source
import TypedSettings.Proofs.Address
import TypedSettings.Proofs.Except
import TypedSettings.Proofs.FreeName
import TypedSettings.Proofs.Identifier.WellFormed
import TypedSettings.Proofs.Identifier.Words
import TypedSettings.Proofs.Schema.Mirror
import TypedSettings.Proofs.Schema.Owners
import TypedSettings.Proofs.Schema.Names
import TypedSettings.Proofs.Schema.Account
import TypedSettings.Proofs.Schema.Strict
import TypedSettings.Proofs.Schema.Accept
import TypedSettings.Proofs.Schema.Collision
import TypedSettings.Proofs.Schema.Nulls
import TypedSettings.Proofs.Schema.Addresses
import TypedSettings.Proofs.Schema.Levels
import TypedSettings.Proofs.Schema.Places
import TypedSettings.Proofs.SideBySide
import TypedSettings.Proofs.Value.Order
import TypedSettings.Proofs.Value.Agreement
import TypedSettings.Proofs.Text.Lines
import TypedSettings.Proofs.Text.Letters
import TypedSettings.Proofs.Text.Quoted
import TypedSettings.Proofs.Text.Reading
import TypedSettings.Proofs.Scope
import TypedSettings.Proofs.LeastNumber
import TypedSettings.Proofs.Identifier.NameText
import TypedSettings.Proofs.Identifier.Segments
import TypedSettings.Proofs.Identifier.Passes
import TypedSettings.Proofs.Classes.Literal
import TypedSettings.Proofs.Classes.Spelling
import TypedSettings.Proofs.Classes.Comments
import TypedSettings.Proofs.Classes.Layout
import TypedSettings.Proofs.Classes.Declarations
import TypedSettings.Proofs.Classes.Code
import TypedSettings.Proofs.Classes.Keyless
import TypedSettings.Proofs.Classes.Plan
import TypedSettings.Proofs.Classes.Reading
import TypedSettings.Proofs.Classes.MemberNames
import TypedSettings.Proofs.Classes.Shadowing
import TypedSettings.Proofs.Structs.Layout
import TypedSettings.Proofs.Structs.Plan
import TypedSettings.Proofs.Structs.SnakeCase
import TypedSettings.Proofs.Structs.Declarations
import TypedSettings.Proofs.Structs.TypeNames
import TypedSettings.Proofs.Structs.Reading
import TypedSettings.Proofs.Structs.MethodNames
import TypedSettings.Proofs.Structs.Spelling
import TypedSettings.Proofs.Lookup
import TypedSettings.Proofs.Schema.Reordered
import TypedSettings.Proofs.Schema.Appended
import TypedSettings.Proofs.Json.Printer
import TypedSettings.Proofs.Json.Strings
import TypedSettings.Proofs.Json.Grammar
import TypedSettings.Proofs.Json.Layout
import TypedSettings.Proofs.Json.Front
import TypedSettings.Proofs.Schema.Record
import TypedSettings.Proofs.Writer
import TypedSettings.Proofs.Enclosing
import TypedSettings.Proofs.Path
import TypedSettings.Proofs.FileSystem.View
import TypedSettings.Proofs.FileSystem.Change
import TypedSettings.Proofs.CommandLine.Output
import TypedSettings.Proofs.CommandLine.Folder
import TypedSettings.Proofs.CommandLine.Inputs
import TypedSettings.Proofs.Options.Reading
import TypedSettings.Proofs.Options.Settings
import TypedSettings.Proofs.Options.WholeText
