import TypedSettings.Options.Setting
import TypedSettings.Path

/-!
# Requests

A request is what a command line asks for: a job, the inputs to do it for, and the choices about it.
-/

namespace TypedSettings.CommandLine

/-- Where one text goes. -/
inductive Output where
  | screen
  | file (path : Path)
  deriving DecidableEq, Repr

/-- What is to be done with the inputs: source code for the only one, source code for each of them in a directory, or one
report about all of them. -/
inductive Job where
  | generate (output : Output)
  | generateInto (folder : Path)
  | inspect (output : Output)
  deriving DecidableEq, Repr

/-- What a command line asks for. -/
structure Request where
  job : Job
  /-- The pointer to the value that is taken for the document. -/
  pointer : Option String
  inputs : List String
  optionsFile : Option Path
  target : Option Target
  enclosing : Option String
  rootType : Option String
  onCollision : Option OnCollision
  onNull : Option OnNull
  /-- Whether the request is only shown. -/
  noOp : Bool
  verbosity : Nat
  quiet : Bool
  deriving DecidableEq, Repr

/-- The settings that a request makes by itself. -/
def Request.settings (request : Request) : List Setting :=
  [request.target.map .target, request.enclosing.map .enclosing, request.rootType.map .rootType,
    request.onCollision.map .onCollision, request.onNull.map .onNull].filterMap id

end TypedSettings.CommandLine
