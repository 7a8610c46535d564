import TypedSettings.FileSystem
import TypedSettings.Wildcard.Pattern

/-!
# Searching by pattern

A path pattern has one level for every part of a path: a plain name, a name pattern, or `**` for any number of
directories. `Pattern.search` gives the paths in a file tree that the pattern stands for, each directory before what is
in it and the entries of a directory in the order of their names.

A dot or two dots at a level lead somewhere without being an entry. They are found by a plain `.` or `..`, and by a name
pattern that begins with a dot and stands for them.
-/

namespace TypedSettings.Wildcard

/-- Whether a text is a pattern rather than a plain path. -/
def isPattern (text : String) : Bool := text.toList.any fun c => c == '*' || c == '?' || c == '[' || c == '\x7b'

/-- What a pattern says about one part of a path. -/
inductive Level where
  | plain (name : String)
  | named (pieces : List Piece)
  | anyDepth
  deriving DecidableEq, Repr

/-- The text that a list of pieces spells, if it has only characters. -/
def spelling? : List Piece → Option (List Char)
  | [] => some []
  | .char c :: pieces => (spelling? pieces).map (c :: ·)
  | _ :: _ => none

namespace Level

/-- The level that a list of pieces makes. -/
def ofPieces (pieces : List Piece) : Level :=
  if pieces = [.anyDepth] then .anyDepth
  else match spelling? pieces with
    | some cs => .plain (String.ofList cs)
    | none => .named pieces

/-- Whether a level stands for the name of an entry. -/
def admits : Level → String → Bool
  | .plain name, other => other == name
  | .named pieces, name => matchesName pieces name.toList
  | .anyDepth, _ => true

end Level

/-- A pattern for paths. -/
structure Pattern where
  isAbsolute : Bool
  levels : List Level
  /-- Whether a slash at the end asks for directories. -/
  forDirectories : Bool
  deriving DecidableEq, Repr

/-- The parts of a text between slashes, without an empty one at the end. -/
def levelTexts (cs : List Char) : List (List Char) :=
  let parts := cs.splitOn '/'
  if parts.getLast? = some [] then parts.dropLast else parts

/-- The pattern that a text writes. It is read as a whole first, so that a fault in it is told with its place in the whole
text, and then level by level. -/
def Pattern.ofText? (text : String) : Except Fault Pattern := do
  let cs := text.toList
  discard (pieces? cs)
  let below := if cs.head? = some '/' then cs.tail else cs
  let levels ← (levelTexts below).mapM pieces?
  return ⟨cs.head? = some '/', levels.map Level.ofPieces, cs.getLast? = some '/'⟩

/-- The path of an entry as a search shows it: entries of the directory where relative paths start have bare names. -/
def entryPath (path : Path) (name : String) : Path := if path.isHere then ⟨name⟩ else path.child name

mutual

/-- What is inside an entry at a path: paths and names, each directory before what is inside it. -/
def inside (path : Path) : Entry → List (Path × String)
  | .file _ => []
  | .directory entries => insideOf path entries

/-- A list of entries of the directory at a path and what is inside them. -/
def insideOf (path : Path) : List (String × Entry) → List (Path × String)
  | [] => []
  | (name, entry) :: entries =>
    (entryPath path name, name) :: inside (entryPath path name) entry ++ insideOf path entries

end

/-- Whether a plain name leads on from a path. -/
def leadsOn (fs : FileSystem) (path : Path) (name : String) : Bool :=
  if name == "." || name == ".." then fs.isDirectory path else fs.holds (entryPath path name)

/-- The steps `.` and `..` from a directory that a name pattern stands for. -/
def dotSteps (fs : FileSystem) (path : Path) (pieces : List Piece) : List Path :=
  if fs.isDirectory path && pieces.head? = some (.char '.') then
    ([['.', '.'], ['.']].filter (matchesName pieces)).map fun step => path.child (String.ofList step)
  else []

/-- The paths that a list of levels leads to from a path. -/
def searchFrom (fs : FileSystem) (forDirectories : Bool) : List Level → Path → List Path
  | [], path => if !forDirectories || fs.isDirectory path then [path] else []
  | .plain name :: levels, path =>
    if leadsOn fs path name then searchFrom fs forDirectories levels (entryPath path name) else []
  | .named pieces :: levels, path =>
    let names := ((fs.list path).map Prod.fst).filter fun name => matchesName pieces name.toList
    (dotSteps fs path pieces ++ names.map (entryPath path)).flatMap (searchFrom fs forDirectories levels)
  | [.anyDepth], path => ((inside path (.directory (fs.list path))).map Prod.fst).filter fs.isDirectory
  | .anyDepth :: .anyDepth :: levels, path => searchFrom fs forDirectories (.anyDepth :: levels) path
  | .anyDepth :: level :: levels, path =>
    (((inside path (.directory (fs.list path))).filter fun (_, name) => level.admits name).map Prod.fst).flatMap
      (searchFrom fs forDirectories levels)

/-- The paths in a file tree that a pattern stands for. -/
def Pattern.search (pattern : Pattern) (fs : FileSystem) : List Path :=
  searchFrom fs pattern.forDirectories pattern.levels ⟨if pattern.isAbsolute then "/" else "."⟩

end TypedSettings.Wildcard
