import TypedSettings.Classes.Source
import TypedSettings.Schema
import TypedSettings.Structs.Source

/-!
# Source texts

The source text of a schema in the language that the options ask for. A `Writer` writes the schemas of several documents
one after the other.
-/

namespace TypedSettings

/-- What is written so far, in one of the languages. -/
inductive Writer where
  | structs (writer : Structs.Writer)
  | classes (text : String)

namespace Writer

/-- The writer that has written nothing. -/
def start : Target → Writer
  | .rust => .structs .start
  | .csharp => .classes ""

/-- Writes the section of one more document. -/
def write (options : Options) (root : Section) : Writer → Writer
  | .structs writer => .structs (writer.write options root)
  | .classes text => .classes (text ++ Classes.source options root)

/-- The text written so far. -/
def text : Writer → String
  | .structs writer => writer.text
  | .classes text => text

end Writer

/-- The source text of a document's section. -/
def Section.source (options : Options) (root : Section) : String :=
  ((Writer.start options.target).write options root).text

/-- The source text of a schema. -/
def Schema.source (options : Options) (schema : Schema) : String := schema.root.source options

end TypedSettings
