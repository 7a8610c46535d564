import TypedSettings.CommandLine.Help
import TypedSettings.CommandLine.Run

/-!
# The command

Carries out a request on the files of the machine. The directories that the request speaks of are looked into first,
then the files that it reads are loaded, the request runs on the tree that this gives, and the files that the run
changed are written.
-/

namespace TypedSettings.Main

open CommandLine

/-- The absolute path of a place. -/
def pathOf (place : List String) : String := "/" ++ String.intercalate "/" place

/-- The entries of a directory of the machine, without what is in them. -/
def entriesAt (place : List String) : IO (List (String × Entry)) := do
  let directory ← IO.FS.realPath (pathOf place)
  if !(← directory.isDir) then return []
  (← directory.readDir).toList.foldlM (fun entries found => do
    let entry := if ← found.path.isDir then Entry.directory [] else Entry.file .empty
    return Entry.place found.fileName entry entries) []

/-- The tree after a look into one of its directories. -/
def look (fs : FileSystem) (place : List String) : IO FileSystem := do
  match fs.root.at? place with
  | some (.directory []) => return { fs with root := fs.root.put place (.directory (← entriesAt place)) }
  | _ => return fs

/-- The tree after a look into the directories that a path runs through. -/
def lookAlong (fs : FileSystem) (path : Path) : IO FileSystem :=
  (List.range (path.parts.length + 1)).foldlM (fun fs count => do
    match fs.follow (fs.start path) (path.parts.take count) with
    | .ok place => look fs place
    | .error _ => return fs) fs

/-- The tree after a look into a directory and those below it, down to a depth. -/
def lookBelow : Nat → FileSystem → List String → IO FileSystem
  | 0, fs, _ => return fs
  | depth + 1, fs, place => do
    let fs ← look fs place
    match fs.root.at? place with
    | some (.directory entries) => entries.foldlM (fun fs (name, entry) =>
        if entry.isDirectory then lookBelow depth fs (place ++ [name]) else return fs) fs
    | _ => return fs

/-- How many directories below each other are looked into for a pattern of any depth. -/
def depthLimit : Nat := 64

/-- The tree after a look at all that a pattern may stand for. -/
def lookForPattern (fs : FileSystem) (pattern : Wildcard.Pattern) : IO FileSystem := do
  let plain := pattern.levels.filterMap fun
    | .plain name => some name
    | _ => none
  let ahead := plain.take (pattern.levels.takeWhile fun
    | .plain _ => true
    | _ => false).length
  let path := Path.ofParts pattern.isAbsolute ahead
  let fs ← lookAlong fs path
  match fs.follow (fs.start path) ahead with
  | .error _ => return fs
  | .ok place =>
    let depth := if .anyDepth ∈ pattern.levels then depthLimit else pattern.levels.length
    lookBelow depth fs place

/-- The tree after a look at all that an input may stand for. -/
def lookForInput (fs : FileSystem) (input : String) : IO FileSystem :=
  if Wildcard.isPattern input then
    match Wildcard.Pattern.ofText? input with
    | .ok pattern => lookForPattern fs pattern
    | .error _ => return fs
  else lookAlong fs ⟨input⟩

/-- The tree with the bytes of one file. -/
def load (fs : FileSystem) (path : Path) : IO FileSystem := do
  match fs.follow (fs.start path) path.parts with
  | .error _ => return fs
  | .ok place => match fs.root.at? place with
    | some (.file _) =>
      let bytes ← IO.FS.readBinFile (pathOf place)
      return { fs with root := fs.root.put place (.file bytes) }
    | _ => return fs

/-- The path that a job writes to. -/
def target? : Job → Option Path
  | .generate output => output.path?
  | .generateInto folder => some folder
  | .inspect output => output.path?

/-- The part of the machine's files that a request speaks of. -/
def survey (request : Request) : IO FileSystem := do
  let here : Path := ⟨(← IO.currentDir).toString⟩
  let fs ← lookAlong ⟨.directory [], here.parts⟩ here
  let named := request.optionsFile.toList ++ (target? request.job).toList
  let fs ← named.foldlM lookAlong fs
  let fs ← request.inputs.foldlM lookForInput fs
  let inputs := (allPaths fs request.inputs).toOption.getD []
  (request.optionsFile.toList ++ inputs).foldlM load fs

/-- Writes the files that a run changed. -/
def save (before after : FileSystem) : IO Unit :=
  for (path, bytes) in ({ before with home := [] }).changes { after with home := [] } do
    let path : Path := ⟨"/" ++ path⟩
    if let some parent := path.parent? then IO.FS.createDirAll parent.text
    IO.FS.writeBinFile path.text bytes

/-- Carries out a request. -/
def carryOut (request : Request) : IO UInt32 := do
  let before ← survey request
  let outcome := request.run before
  save before outcome.files
  IO.print outcome.stdout
  IO.eprint outcome.stderr
  return if outcome.failure?.isSome then 1 else 0

/-- Answers arguments that make no request. -/
def answer (usage : Usage) : IO UInt32 := do
  if usage.isAnswer then
    IO.print usage.message
    return 0
  IO.eprint usage.message
  return 2

end TypedSettings.Main

/-- Runs the command. -/
def main (arguments : List String) : IO UInt32 :=
  match TypedSettings.CommandLine.Request.ofArguments? arguments with
  | .ok request => TypedSettings.Main.carryOut request
  | .error usage => TypedSettings.Main.answer usage
