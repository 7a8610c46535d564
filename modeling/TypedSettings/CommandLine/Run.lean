import TypedSettings.CommandLine.Documents
import TypedSettings.CommandLine.Dump
import TypedSettings.Json.Printer
import TypedSettings.Schema.Record

/-!
# Runs

A run carries out a request on a file tree. All documents are read before anything is written, and a single output is
complete before it is written. With an output directory there is one file for every document; two documents for one file
are refused before the first of them is written, and after that each document is generated and written by itself.
-/

namespace TypedSettings.CommandLine

/-- What a run leaves: a failure if there is one, what it prints, and the file tree. -/
structure Outcome where
  failure? : Option Failure
  stdout : String
  stderr : String
  files : FileSystem

/-- The outcome of a run that fails. -/
def Outcome.failed (failure : Failure) (files : FileSystem) : Outcome := ⟨some failure, "", failure.report, files⟩

/-- Writes one output, with the directories that are missing above it. -/
def store (path : Path) (text : String) (fs : FileSystem) : Except Failure Unit × FileSystem :=
  let parent := path.parent?
  match (parent.map fs.makeDirectories).getD (.ok (), fs) with
  | (.error cause, fs) => (.error (.folderUnmade (parent.getD path) cause), fs)
  | (.ok (), fs) => match fs.write path text with
    | .error cause => (.error (.outputUnwritten path cause), fs)
    | .ok fs => (.ok (), fs)

/-- The line about a file that was written. -/
def writtenLine (source output : Path) : String := "generated " ++ source.text ++ " → " ++ output.text ++ "\n"

/-! ## Many outputs -/

/-- A document and the file that is generated for it. -/
structure Planned where
  document : Document
  output : Path

/-- The files for a list of documents in a directory. -/
def plan (options : Options) (folder : Path) (documents : List Document) : List Planned :=
  documents.map fun document => ⟨document, folder.child (document.outputName options.target)⟩

/-- The first of a list of planned files that is planned before already, among the given ones or in the list. -/
def repeated? (before : List Path) : List Planned → Option Planned
  | [] => none
  | planned :: rest =>
    if planned.output ∈ before then some planned else repeated? (planned.output :: before) rest

/-- Generates and writes one planned file. -/
def Planned.carryOut (options : Options) (fs : FileSystem) (planned : Planned) : Except Failure Unit × FileSystem :=
  match planned.document.code options with
  | .error failure => (.error failure, fs)
  | .ok code => store planned.output code fs

/-- Carries out planned files one after the other up to the first failure, after some text on the error output. -/
def carryOutAll (options : Options) (stderr : String) : List Planned → FileSystem → Outcome
  | [], fs => ⟨none, "", stderr, fs⟩
  | planned :: rest, fs => match planned.carryOut options fs with
    | (.error failure, fs) => ⟨some failure, "", stderr ++ failure.report, fs⟩
    | (.ok (), fs) => carryOutAll options (stderr ++ writtenLine planned.document.source planned.output) rest fs

/-- Generates a file in a directory for every document. -/
def writeAll (options : Options) (folder : Path) (documents : List Document) (fs : FileSystem) : Outcome :=
  let planned := plan options folder documents
  match repeated? [] planned with
  | some again => .failed (.sameOutput again.document.source again.output) fs
  | none => carryOutAll options "" planned fs

/-! ## One output -/

/-- The source code for the only document. -/
def singleCode (options : Options) : List Document → Except Failure (Path × String)
  | [document] => do return (document.source, ← document.code options)
  | documents => .error (.manyInputs documents.length)

/-- The report about documents: an object with the record of each under its path. -/
def inspection (options : Options) (documents : List Document) : Except Failure Value := do
  return .ofMembers (← documents.mapM fun document => do
    return (document.source.text, (← document.schema options).record))

/-- Puts one text out: on the screen with a last line end, or into a file with a line about it. -/
def emit (output : Output) (text lineEnd line : String) (fs : FileSystem) : Outcome :=
  match output with
  | .screen => ⟨none, text ++ lineEnd, "", fs⟩
  | .file path => match store path text fs with
    | (.error failure, fs) => .failed failure fs
    | (.ok (), fs) => ⟨none, "", line, fs⟩

/-! ## Requests -/

/-- Carries out a request whose options and documents are read. -/
def runJob (options : Options) (documents : List Document) (fs : FileSystem) : Job → Outcome
  | .generateInto folder => writeAll options folder documents fs
  | .generate output => match singleCode options documents with
    | .error failure => .failed failure fs
    | .ok (source, code) => emit output code "" ((output.path?.map (writtenLine source)).getD "") fs
  | .inspect output => match inspection options documents with
    | .error failure => .failed failure fs
    | .ok report => emit output report.pretty "\n" "" fs

/-- Carries out a request, or only shows it if it says so. -/
def Request.run (request : Request) (fs : FileSystem) : Outcome :=
  if request.noOp then ⟨none, "", request.dump, fs⟩
  else match request.options fs with
    | .error failure => .failed failure fs
    | .ok options => match request.documents fs with
      | .error failure => .failed failure fs
      | .ok documents => runJob options documents fs request.job

end TypedSettings.CommandLine
