import TypedSettings.CommandLine.Arguments
import TypedSettings.Generator

/-!
# Help

What is told in place of a run: how the command is used, which version it is, or why a list of arguments makes no
request.
-/

namespace TypedSettings.CommandLine

/-- What stands for the value of a choice. -/
def Choice.placeholder : Choice → String
  | .input => "INPUT"
  | .target => String.intercalate "|" (Target.words.map Prod.fst)
  | .onCollision => String.intercalate "|" (OnCollision.words.map Prod.fst)
  | .onNull => String.intercalate "|" (OnNull.words.map Prod.fst)
  | .optionsFile => "FILE"
  | .out => "FILE"
  | .outDir => "DIRECTORY"
  | _ => "TEXT"

/-- How a switch is written. -/
def Switch.usage (switch : Switch) : String :=
  (match switch.letter? with
    | some letter => "  -" ++ letter.toString ++ ", --"
    | none => "      --") ++ switch.name ++
  match switch with
    | .flag _ => ""
    | .choice key => " <" ++ key.placeholder ++ ">" ++ if key = .input then "..." else ""

/-- How the command is used. -/
def helpText : String :=
  let block (title : String) (switches : List Switch) : String :=
    "\n" ++ title ++ ":\n" ++ String.join (switches.map fun switch => switch.usage ++ "\n")
  "Generates typed accessors for settings from JSON documents.\n\nUsage: " ++ generatorName ++
    " [OPTIONS] generate|inspect --input <INPUT>...\n" ++
    block "Options" Switch.ahead ++ block Verb.generate.word Verb.generate.switches ++
    block Verb.inspect.word Verb.inspect.switches

namespace Usage

/-- Whether the arguments ask for what is told. -/
def isAnswer : Usage → Bool
  | .help => true
  | .version => true
  | _ => false

/-- What is told. -/
def message : Usage → String
  | .help => helpText
  | .noArguments => helpText
  | .version => generatorName ++ " " ++ generatorVersion ++ "\n"
  | .unknownArgument => "error: unexpected argument\n"
  | .badValue => "error: invalid or missing value\n"
  | .missingChoice => "error: the inputs are missing\n"
  | .conflict => "error: arguments exclude each other\n"
  | .unneededValue => "error: unexpected value for a flag\n"
  | .unknownVerb => "error: unrecognized subcommand\n"
  | .missingVerb => "error: the subcommand is missing\n"

end Usage

end TypedSettings.CommandLine
