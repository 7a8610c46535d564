import TypedSettings.Path

/-!
# File trees

A tree of files and directories, and what a program does with it by path: look up, read, list, make directories and
write files. A relative path starts at the home of the tree. The parts of a path are followed one by one, each from a
directory; `..` leads one directory up.

Only `makeDirectory`, `makeDirectories` and `write` change a tree, and only `write` changes a file.
-/

namespace TypedSettings

/-- Why a file or a directory cannot be used as asked. -/
inductive FileError where
  | missing
  | present
  | notDirectory
  | isDirectory
  | longName
  | notText
  deriving DecidableEq, Repr

/-- The wording of a file error. -/
def FileError.message : FileError → String
  | .missing => "No such file or directory (os error 2)"
  | .present => "File exists (os error 17)"
  | .notDirectory => "Not a directory (os error 20)"
  | .isDirectory => "Is a directory (os error 21)"
  | .longName => "File name too long (os error 36)"
  | .notText => "stream did not contain valid UTF-8"

/-- A file with its bytes, or a directory with its entries in the order of their names. -/
inductive Entry where
  | file (bytes : ByteArray)
  | directory (entries : List (String × Entry))
  deriving Inhabited

namespace Entry

/-- Whether an entry is a directory. -/
def isDirectory : Entry → Bool
  | .file _ => false
  | .directory _ => true

/-- The entry that a list of names leads to. -/
def at? : Entry → List String → Option Entry
  | entry, [] => some entry
  | .file _, _ :: _ => none
  | .directory entries, name :: names => match entries.lookup name with
    | some entry => entry.at? names
    | none => none

/-- The entries of a directory with one more, which takes the place of the one that has its name. -/
def place (name : String) (entry : Entry) : List (String × Entry) → List (String × Entry)
  | [] => [(name, entry)]
  | (other, old) :: entries =>
    if name = other then (name, entry) :: entries
    else if name < other then (name, entry) :: (other, old) :: entries
    else (other, old) :: place name entry entries

/-- The tree with a new entry where a list of names leads. Directories that are missing on the way are made, and a file
on the way stays as it is. -/
def put : Entry → List String → Entry → Entry
  | _, [], new => new
  | .file bytes, _ :: _, _ => .file bytes
  | .directory entries, name :: names, new =>
    .directory (place name (((entries.lookup name).getD (.directory [])).put names new) entries)

mutual

/-- The files of a tree with the names that lead to them. -/
def files : Entry → List (List String × ByteArray)
  | .file bytes => [([], bytes)]
  | .directory entries => filesOf entries

/-- The files in the entries of a directory. -/
def filesOf : List (String × Entry) → List (List String × ByteArray)
  | [] => []
  | (name, entry) :: entries => (files entry).map (fun (names, bytes) => (name :: names, bytes)) ++ filesOf entries

end

end Entry

/-- A tree with the directory where relative paths start. -/
structure FileSystem where
  root : Entry
  home : List String

namespace FileSystem

/-- The tree that holds some files below the home. -/
def ofFiles (home : List String) (files : List (Path × ByteArray)) : FileSystem :=
  ⟨files.foldl (fun root (path, bytes) => root.put (home ++ path.parts.filter (!Path.isIdle ·)) (.file bytes))
    ((Entry.directory []).put home (.directory [])), home⟩

/-! ## Looking up -/

/-- The most bytes that a name may have. -/
def nameLimit : Nat := 255

/-- The most bytes that a path may have. -/
def pathLimit : Nat := 4095

/-- Where a path starts. -/
def start (fs : FileSystem) (path : Path) : List String := if path.isAbsolute then [] else fs.home

/-- The place that the parts of a path lead to from a directory. -/
def follow (fs : FileSystem) : List String → List String → Except FileError (List String)
  | place, [] => .ok place
  | place, part :: parts => match fs.root.at? place with
    | none => .error .missing
    | some (.file _) => .error .notDirectory
    | some (.directory entries) =>
      if Path.isIdle part then fs.follow place parts
      else if part == ".." then fs.follow place.dropLast parts
      else if nameLimit < part.utf8ByteSize then .error .longName
      else if (entries.lookup part).isNone then .error .missing
      else fs.follow (place ++ [part]) parts

/-- Refuses the empty path and one that is too long. -/
def checkLength (path : Path) : Except FileError Unit :=
  if path.text == "" then .error .missing
  else if pathLimit < path.text.utf8ByteSize then .error .longName
  else .ok ()

/-- The entry at a path. -/
def entry (fs : FileSystem) (path : Path) : Except FileError Entry := do
  checkLength path
  match fs.root.at? (← fs.follow (fs.start path) path.parts) with
  | none => throw .missing
  | some entry => return entry

/-- Whether there is a file or a directory at a path. -/
def holds (fs : FileSystem) (path : Path) : Bool := (fs.entry path).toOption.isSome

/-- Whether there is a directory at a path. -/
def isDirectory (fs : FileSystem) (path : Path) : Bool := (fs.entry path).toOption.any Entry.isDirectory

/-- The entries of the directory at a path, none if there is no directory. -/
def list (fs : FileSystem) (path : Path) : List (String × Entry) :=
  match fs.entry path with
  | .ok (.directory entries) => entries
  | _ => []

/-- The text of the file at a path. -/
def read (fs : FileSystem) (path : Path) : Except FileError String := do
  match ← fs.entry path with
  | .directory _ => throw .isDirectory
  | .file bytes => match String.fromUTF8? bytes with
    | none => throw .notText
    | some text => return text

/-! ## Changing -/

/-- The end of a path: the directory above it with its entries, the last part, and whether a slash follows it. -/
structure Spot where
  above : List String
  entries : List (String × Entry)
  name : String
  closed : Bool

/-- Whether the end of a path is no name but leads to a directory. -/
def Spot.isStep (spot : Spot) : Bool := spot.name == "." || spot.name == ".."

/-- The names that lead to the end of a path. -/
def Spot.names (spot : Spot) : List String := spot.above ++ [spot.name]

/-- The end of a path, which the root does not have. -/
def spot (fs : FileSystem) (path : Path) : Except FileError (Option Spot) := do
  checkLength path
  match path.parts.reverse.dropWhile (· == "") with
  | [] => return none
  | name :: above =>
    let place ← fs.follow (fs.start path) above.reverse
    match fs.root.at? place with
    | none => throw .missing
    | some (.file _) => throw .notDirectory
    | some (.directory entries) =>
      if nameLimit < name.utf8ByteSize then throw .longName
      return some ⟨place, entries, name, path.parts.getLast? == some ""⟩

/-- Makes one directory, whose parent has to be there. -/
def makeDirectory (fs : FileSystem) (path : Path) : Except FileError FileSystem := do
  match ← fs.spot path with
  | none => throw .present
  | some spot =>
    if spot.isStep || (spot.entries.lookup spot.name).isSome then throw .present
    return { fs with root := fs.root.put spot.names (.directory []) }

/-- Makes the first directory of a list in which each path is followed by its parent. If the parent is missing, it is
made first; a directory that is there already is as good as a new one. -/
def makeFirst (fs : FileSystem) : List Path → Except FileError Unit × FileSystem
  | [] => (.ok (), fs)
  | path :: above =>
    if path.text == "" then (.ok (), fs)
    else match fs.makeDirectory path with
      | .ok fs => (.ok (), fs)
      | .error .missing => match fs.makeFirst above with
        | (.error error, fs) => (.error error, fs)
        | (.ok (), fs) => match fs.makeDirectory path with
          | .ok fs => (.ok (), fs)
          | .error error => (if fs.isDirectory path then .ok () else .error error, fs)
      | .error error => (if fs.isDirectory path then .ok () else .error error, fs)

/-- Makes a directory and all that are missing above it. What is made stays even if the rest cannot be made. -/
def makeDirectories (fs : FileSystem) (path : Path) : Except FileError Unit × FileSystem := fs.makeFirst path.ancestors

/-- Writes a file in a directory that is there, in place of the file that has its name. -/
def write (fs : FileSystem) (path : Path) (text : String) : Except FileError FileSystem := do
  match ← fs.spot path with
  | none => throw .isDirectory
  | some spot =>
    if spot.closed || spot.isStep || ((spot.entries.lookup spot.name).any Entry.isDirectory) then throw .isDirectory
    return { fs with root := fs.root.put spot.names (.file text.toUTF8) }

/-! ## Comparing -/

/-- The files below the home, with the texts of their paths. -/
def homeFiles (fs : FileSystem) : List (String × ByteArray) :=
  ((fs.root.at? fs.home).map Entry.files).getD [] |>.map fun (names, bytes) => (String.intercalate "/" names, bytes)

/-- The files below the home that are new or hold something else than in an earlier tree, by path. -/
def changes (before after : FileSystem) : List (String × ByteArray) :=
  (after.homeFiles.filter fun (path, bytes) => before.homeFiles.lookup path != some bytes).mergeSort
    fun (a, _) (b, _) => a ≤ b

end FileSystem

end TypedSettings
