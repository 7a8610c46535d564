import TypedSettings.CommandLine.Request
import TypedSettings.Text.Lines
import TypedSettings.Text.Quoted

/-!
# Dumps of requests

A request that is only shown is written as a tree of named values, one value a line. Everything that stands inside
another value ends with a comma.
-/

namespace TypedSettings.CommandLine

/-- A value as a dump shows it: a word, or other values in brackets of one kind. -/
inductive Shown where
  | word (text : String)
  | record (name : String) (fields : List (String × Shown))
  | wrapped (name : String) (content : Shown)
  | list (items : List Shown)

namespace Shown

mutual

/-- The lines of a value at a depth, between what stands in front of it and behind it. -/
def lines (depth : Nat) (before after : String) : Shown → List Text.Line
  | .word text => [⟨depth, before ++ text ++ after⟩]
  | .record name fields =>
    ⟨depth, before ++ name ++ " \x7b"⟩ :: fieldLines (depth + 1) fields ++ [⟨depth, "\x7d" ++ after⟩]
  | .wrapped name content =>
    ⟨depth, before ++ name ++ "("⟩ :: lines (depth + 1) "" "," content ++ [⟨depth, ")" ++ after⟩]
  | .list items => ⟨depth, before ++ "["⟩ :: itemLines (depth + 1) items ++ [⟨depth, "]" ++ after⟩]

/-- The lines of the fields of a record. -/
def fieldLines (depth : Nat) : List (String × Shown) → List Text.Line
  | [] => []
  | (name, shown) :: fields => lines depth (name ++ ": ") "," shown ++ fieldLines depth fields

/-- The lines of the items of a list. -/
def itemLines (depth : Nat) : List Shown → List Text.Line
  | [] => []
  | shown :: items => lines depth "" "," shown ++ itemLines depth items

end

/-- The text of a value. -/
def render (shown : Shown) : String := Text.renderLines (shown.lines 0 "" "")

/-- A text between quotes. -/
def text (s : String) : Shown := .word (Text.quoted s)

/-- A path between quotes, where a single quote has a backslash as well. -/
def path (path : Path) : Shown :=
  let char (c : Char) : List Char := if c == '\x27' then ['\\', c] else Text.quotedChar Text.isHidden c
  .word (String.ofList ('"' :: (path.text.toList.flatMap char ++ ['"'])))

/-- A truth value. -/
def bool (b : Bool) : Shown := .word (if b then "true" else "false")

/-- A value that may be missing. -/
def optional {α : Type} (shown : α → Shown) : Option α → Shown
  | none => .word "None"
  | some a => .wrapped "Some" (shown a)

/-- A target. -/
def target : Target → Shown
  | .rust => .word "Rust"
  | .csharp => .word "Csharp"

/-- What happens to colliding names. -/
def onCollision : OnCollision → Shown
  | .suffix => .word "Suffix"
  | .error => .word "Error"

/-- What happens to nulls. -/
def onNull : OnNull → Shown
  | .skip => .word "Skip"
  | .string => .word "String"
  | .error => .word "Error"

end Shown

/-- The path of an output that is a file. -/
def Output.path? : Output → Option Path
  | .screen => none
  | .file path => some path

/-- The fields of a request that both verbs have: the inputs and the settings. -/
def Request.sharedFields (request : Request) : List (String × Shown) :=
  [("input_settings", .record "InputSettings" [
      ("json_pointer", .optional .text request.pointer),
      ("input", .list (request.inputs.map .text))]),
    ("option_settings", .record "OptionSettings" [
      ("options", .optional .path request.optionsFile),
      ("target", .optional .target request.target),
      ("namespace", .optional .text request.enclosing),
      ("root_type", .optional .text request.rootType),
      ("collisions", .optional .onCollision request.onCollision),
      ("null_values", .optional .onNull request.onNull)])]

/-- The verb of a request with all that stands behind it. -/
def Request.shownJob (request : Request) : Shown :=
  let generate (out folder : Option Path) : Shown :=
    .wrapped "Generate" (.record "GenerateOut" (request.sharedFields ++
      [("out", .optional .path out), ("out_dir", .optional .path folder), ("no_op", .bool request.noOp)]))
  match request.job with
  | .generate output => generate output.path? none
  | .generateInto folder => generate none (some folder)
  | .inspect output =>
    .wrapped "Inspect" (.record "InspectOut" (request.sharedFields ++
      [("out", .optional .path output.path?), ("no_op", .bool request.noOp)]))

/-- The dump of a request. -/
def Request.dump (request : Request) : String :=
  (Shown.record "CommandLineInterface"
    [("cmd", request.shownJob), ("verbose", .word (toString request.verbosity)),
      ("quiet", .bool request.quiet)]).render

end TypedSettings.CommandLine
