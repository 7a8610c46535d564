import TypedSettings.FileSystem
import TypedSettings.Notice
import TypedSettings.Options.Fault
import TypedSettings.Text.Lines
import TypedSettings.Wildcard.Pattern

/-!
# Failures of runs

A failure is told in one sentence, with what caused it below if that is not all of it.
-/

namespace TypedSettings.CommandLine

/-- Why a run fails. -/
inductive Failure where
  | optionsUnread (path : Path) (cause : FileError)
  | optionsRefused (path : Path) (refusal : Options.Refusal)
  | patternRefused (pattern : String) (fault : Wildcard.Fault)
  | patternUnmatched (pattern : String)
  | inputUnread (path : Path) (cause : FileError)
  | inputRefused (path : Path) (detail : String)
  | pointerUnmatched (pointer : String) (path : Path)
  | notGenerated (path : Path) (error : SchemaError)
  | manyInputs (count : Nat)
  | sameOutput (input output : Path)
  | folderUnmade (path : Path) (cause : FileError)
  | outputUnwritten (path : Path) (cause : FileError)
  deriving DecidableEq, Repr

namespace Failure

/-- What fails. -/
def message : Failure → String
  | .optionsUnread path cause => "failed to read options file " ++ path.text ++ ": " ++ cause.message
  | .optionsRefused path refusal => "invalid options file " ++ path.text ++ ": " ++ refusal.message
  | .patternRefused pattern _ => "bad glob pattern: " ++ pattern
  | .patternUnmatched pattern => "glob pattern matched no files: " ++ pattern
  | .inputUnread path _ => "failed to read " ++ path.text
  | .inputRefused path _ => "failed to parse JSON source file " ++ path.text
  | .pointerUnmatched pointer path => "JSON pointer " ++ pointer ++ " matches nothing in " ++ path.text
  | .notGenerated path _ => "failed to generate from " ++ path.text
  | .manyInputs count => toString count ++ " inputs given; use --out-dir to generate more than one"
  | .sameOutput input output =>
    input.text ++ " would overwrite " ++ output.text ++ " generated from another input"
  | .folderUnmade path _ => "failed to create " ++ path.text
  | .outputUnwritten path _ => "failed to write " ++ path.text

/-- Why it fails. -/
def cause? : Failure → Option String
  | .optionsUnread _ cause => some cause.message
  | .optionsRefused _ refusal => some refusal.message
  | .patternRefused _ fault => some fault.message
  | .inputUnread _ cause => some cause.message
  | .inputRefused _ detail => some detail
  | .notGenerated _ error => some error.message
  | .folderUnmade _ cause => some cause.message
  | .outputUnwritten _ cause => some cause.message
  | .patternUnmatched _ => none
  | .pointerUnmatched _ _ => none
  | .manyInputs _ => none
  | .sameOutput _ _ => none

/-- The report of a failure: what fails, and below an empty line its cause, every line of it four blanks in. -/
def report (failure : Failure) : String :=
  "Error: " ++ failure.message ++ "\n" ++ match failure.cause? with
    | none => ""
    | some cause =>
      let lines := (cause.toList.splitOn '\n').map fun line => "    " ++ String.ofList line ++ "\n"
      "\nCaused by:\n" ++ String.join lines

end Failure

end TypedSettings.CommandLine
