import TypedSettings.CommandLine.Failure
import TypedSettings.CommandLine.Request
import TypedSettings.Json.Pointer
import TypedSettings.Json.Reader
import TypedSettings.Options.Reader
import TypedSettings.Source
import TypedSettings.Wildcard.Search

/-!
# Documents of a request

What a run reads before it writes anything: the options, and one document for every path that the inputs stand for. An
input is a path, a pattern, or a directory in place of the settings file in it.
-/

namespace TypedSettings.CommandLine

/-- A value read from a file. -/
structure Document where
  source : Path
  value : Value

/-- The name of the settings file that a directory stands for. -/
def settingsFile : String := "appsettings.json"

/-- The paths that one input stands for. A pattern has to match something. -/
def inputPaths (fs : FileSystem) (input : String) : Except Failure (List Path) :=
  if Wildcard.isPattern input then
    match Wildcard.Pattern.ofText? input with
    | .error fault => .error (.patternRefused input fault)
    | .ok pattern =>
      let paths := pattern.search fs
      if paths.isEmpty then .error (.patternUnmatched input) else .ok paths
  else if fs.isDirectory ⟨input⟩ then .ok [(⟨input⟩ : Path).child settingsFile]
  else .ok [⟨input⟩]

/-- The paths that the inputs stand for, input by input. -/
def allPaths (fs : FileSystem) (inputs : List String) : Except Failure (List Path) := do
  return (← inputs.mapM (inputPaths fs)).flatten

/-- The document at a path, or the value in it that a pointer leads to. -/
def Document.load (fs : FileSystem) (pointer : Option String) (source : Path) : Except Failure Document := do
  match fs.read source with
  | .error cause => throw (.inputUnread source cause)
  | .ok text => match Value.ofJson? text.toList with
    | .error fault => throw (.inputRefused source (fault.message text.toList))
    | .ok value => match pointer with
      | none => return ⟨source, value⟩
      | some pointer => match value.atPointer? pointer with
        | none => throw (.pointerUnmatched pointer source)
        | some value => return ⟨source, value⟩

/-- The documents of a request. -/
def Request.documents (request : Request) (fs : FileSystem) : Except Failure (List Document) := do
  (← allPaths fs request.inputs).mapM (Document.load fs request.pointer)

/-- The options of a request: those of its options file, with its own settings made after them. -/
def Request.options (request : Request) (fs : FileSystem) : Except Failure Options := do
  match request.optionsFile with
  | none => return ({} : Options).setAll request.settings
  | some path => match fs.read path with
    | .error cause => throw (.optionsUnread path cause)
    | .ok text => match Options.ofJson? text.toList with
      | .error refusal => throw (.optionsRefused path refusal)
      | .ok options => return options.setAll request.settings

/-- The schema of a document. -/
def Document.schema (options : Options) (document : Document) : Except Failure Schema :=
  (Schema.ofValue options document.value).mapError (.notGenerated document.source)

/-- The source code for a document. -/
def Document.code (options : Options) (document : Document) : Except Failure String := do
  return (← document.schema options).source options

/-- The name of the file for a document in an output directory. -/
def Document.outputName (target : Target) (document : Document) : String :=
  let identifier := (Identifier.ofKey document.source.stem).text
  let base := match target with
    | .rust => Structs.snakeCase identifier
    | .csharp => identifier
  base ++ "." ++ target.extension

end TypedSettings.CommandLine
