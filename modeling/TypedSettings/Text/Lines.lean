/-!
# Indented lines

Generated code is a list of lines, each with a depth; a line of depth `n` begins with `4 n` blanks, an empty line with
none, and every line ends with a line feed.
-/

namespace TypedSettings.Text

/-- A line of code at a depth. -/
structure Line where
  depth : Nat
  text : String
  deriving DecidableEq, Repr

/-- An empty line. -/
def blank : Line := ⟨0, ""⟩

/-- A line with its indentation and its line feed. -/
def Line.render (line : Line) : String :=
  (if line.text.isEmpty then "" else String.ofList (List.replicate (4 * line.depth) ' ') ++ line.text) ++ "\n"

/-- The text of a list of lines. -/
def renderLines (lines : List Line) : String := String.join (lines.map Line.render)

/-- Groups of lines with an empty line between any two of them. -/
def parted (groups : List (List Line)) : List Line := [blank].intercalate groups

end TypedSettings.Text
