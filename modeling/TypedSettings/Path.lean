/-!
# Paths

A path is a text whose parts stand between slashes. An empty part and a part `.` lead nowhere, except for a `.` at the
front of a relative path; the other parts are the components of the path. A path keeps its text, so that it is shown as
it was given.
-/

namespace TypedSettings

/-- The text that names a file or a directory. -/
structure Path where
  text : String
  deriving DecidableEq, Repr, Inhabited

namespace Path

/-- Whether a path starts at the root. -/
def isAbsolute (path : Path) : Bool := path.text.toList.head? == some '/'

/-- The parts between the slashes; the slash at the front of an absolute path parts nothing. -/
def parts (path : Path) : List String :=
  match path.text.toList with
  | [] => []
  | '/' :: cs => (cs.splitOn '/').map String.ofList
  | cs => (cs.splitOn '/').map String.ofList

/-- Whether a part leads nowhere. -/
def isIdle (part : String) : Bool := part == "" || part == "."

/-- The path that a list of parts makes. -/
def ofParts (absolute : Bool) (parts : List String) : Path :=
  ⟨(if absolute then "/" else "") ++ String.intercalate "/" parts⟩

/-- The paths that end in the components of a list of parts, which is given from the last part to the first, and last of
all the path without a part. -/
def climb (absolute : Bool) : List String → List Path
  | [] => [ofParts absolute []]
  | part :: above =>
    if isIdle part && (absolute || !above.isEmpty) then climb absolute above
    else ofParts absolute (part :: above).reverse :: climb absolute above

/-- A path and the paths above it, each without the last component of the one before. -/
def ancestors (path : Path) : List Path := climb path.isAbsolute path.parts.reverse

/-- The path without its last component. The root and the empty path have no component. -/
def parent? (path : Path) : Option Path := path.ancestors.tail.head?

/-- The last component, if it is a name. -/
def name? (path : Path) : Option String :=
  (path.parts.reverse.find? (!isIdle ·)).filter (· != "..")

/-- A name up to its last dot, or the whole name if nothing stands in front of that dot. -/
def stemOf (name : String) : String :=
  match name.toList.reverse.dropWhile (· != '.') with
  | '.' :: c :: cs => String.ofList (c :: cs).reverse
  | _ => name

/-- The name of the file without its extension. -/
def stem (path : Path) : String := ((path.name?).map stemOf).getD ""

/-- The path of an entry of a directory. -/
def child (path : Path) (name : String) : Path :=
  match path.text.toList.getLast? with
  | none => ⟨name⟩
  | some '/' => ⟨path.text ++ name⟩
  | some _ => ⟨path.text ++ "/" ++ name⟩

/-- Whether a path is the directory where relative paths start, written as a dot. -/
def isHere (path : Path) : Bool :=
  match path.parts with
  | "." :: parts => !path.isAbsolute && parts.all isIdle
  | _ => false

end Path

end TypedSettings
