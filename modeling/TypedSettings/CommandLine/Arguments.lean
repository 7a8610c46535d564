import TypedSettings.CommandLine.Request

/-!
# Arguments

The arguments of a command line name a verb and then switches: flags, which stand alone, and choices, which take values.
A switch is written with its long name behind two dashes or with its letter behind one; letters may stand together, and
a value may be attached to its choice.

The values of a choice are gathered argument by argument. They are judged once the next switch is taken or the arguments
end, so that an argument that is no switch at all is refused ahead of a bad value in front of it.
-/

namespace TypedSettings.CommandLine

/-- Why a list of arguments makes no request. -/
inductive Usage where
  | unknownArgument
  | badValue
  | missingChoice
  | conflict
  | unneededValue
  | unknownVerb
  | missingVerb
  | noArguments
  | help
  | version
  deriving DecidableEq, Repr

/-- What a command line does. -/
inductive Verb where
  | generate
  | inspect
  deriving DecidableEq, Repr

/-- A switch without a value. -/
inductive Flag where
  | verbose
  | quiet
  | noOp
  | help
  | version
  deriving DecidableEq, Repr

/-- A switch with a value. -/
inductive Choice where
  | pointer
  | input
  | optionsFile
  | target
  | enclosing
  | rootType
  | onCollision
  | onNull
  | out
  | outDir
  deriving DecidableEq, Repr

/-- A switch on the command line. -/
inductive Switch where
  | flag (flag : Flag)
  | choice (choice : Choice)
  deriving DecidableEq, Repr

namespace Switch

/-- The long name of a switch. -/
def name : Switch → String
  | .flag .verbose => "verbose"
  | .flag .quiet => "quiet"
  | .flag .noOp => "no-op"
  | .flag .help => "help"
  | .flag .version => "version"
  | .choice .pointer => "json-pointer"
  | .choice .input => "input"
  | .choice .optionsFile => "options"
  | .choice .target => "target"
  | .choice .enclosing => "namespace"
  | .choice .rootType => "root-type"
  | .choice .onCollision => "collisions"
  | .choice .onNull => "null-values"
  | .choice .out => "out"
  | .choice .outDir => "out-dir"

/-- The letter of a switch that has one. -/
def letter? : Switch → Option Char
  | .flag .verbose => some 'v'
  | .flag .quiet => some 'q'
  | .flag .help => some 'h'
  | .flag .version => some 'V'
  | .choice .input => some 'i'
  | .choice .out => some 'o'
  | _ => none

/-- The switches in front of the verb. -/
def ahead : List Switch := [.flag .verbose, .flag .quiet, .flag .help, .flag .version]

end Switch

/-- The word for a verb. -/
def Verb.word : Verb → String
  | .generate => "generate"
  | .inspect => "inspect"

/-- The verb that a word names. -/
def Verb.ofWord? (word : String) : Option Verb := [Verb.generate, .inspect].find? (·.word == word)

/-- The word that asks for help in place of a verb. -/
def helpWord : String := "help"

/-- The switches behind a verb. -/
def Verb.switches (verb : Verb) : List Switch :=
  [.choice .pointer, .choice .input, .choice .optionsFile, .choice .target, .choice .enclosing, .choice .rootType,
    .choice .onCollision, .choice .onNull, .choice .out, .flag .noOp, .flag .verbose, .flag .quiet, .flag .help] ++
    if verb = .generate then [.choice .outDir] else []

/-- Whether a text is a value for a choice. -/
def Choice.admits : Choice → String → Bool
  | .optionsFile, text => text != ""
  | .out, text => text != ""
  | .outDir, text => text != ""
  | .target, text => (Target.words.lookup text).isSome
  | .onCollision, text => (OnCollision.words.lookup text).isSome
  | .onNull, text => (OnNull.words.lookup text).isSome
  | _, _ => true

/-! ## Gathering -/

/-- What a list of arguments gives. -/
structure Given where
  flags : List Flag := []
  values : List (Choice × String) := []
  /-- The choice whose values are being gathered, and its values so far. -/
  pending : Option (Choice × List String) := none
  deriving DecidableEq, Repr

namespace Given

/-- Judges the values gathered for a choice. -/
def settle (given : Given) : Except Usage Given :=
  match given.pending with
  | none => .ok given
  | some (choice, texts) =>
    if texts.isEmpty then .error .badValue
    else if choice ≠ .input ∧ given.values.any (·.1 == choice) then .error .conflict
    else if !texts.all choice.admits then .error .badValue
    else .ok { given with values := given.values ++ texts.map (choice, ·), pending := none }

/-- Takes a flag. Only verbosity may be asked for more than once. -/
def raise (flag : Flag) (given : Given) : Except Usage Given := do
  let given ← given.settle
  match flag with
  | .help => throw .help
  | .version => throw .version
  | _ =>
    if flag ≠ .verbose ∧ given.flags.contains flag then throw .conflict
    return { given with flags := flag :: given.flags }

/-- Takes a choice whose values follow. -/
def await (choice : Choice) (given : Given) : Except Usage Given := do
  return { ← given.settle with pending := some (choice, []) }

/-- Takes a choice with the value attached to it. -/
def attach (choice : Choice) (text : String) (given : Given) : Except Usage Given := do
  settle { ← given.settle with pending := some (choice, [text]) }

/-- Takes an argument that is no switch, as a value of the choice that waits for one. Inputs may have any number of
values. -/
def word (text : String) (given : Given) : Except Usage Given :=
  match given.pending with
  | some (choice, texts) =>
    if choice = .input ∨ texts.isEmpty then .ok { given with pending := some (choice, texts ++ [text]) }
    else .error .unknownArgument
  | none => .error .unknownArgument

/-- Takes the text behind two dashes: a name, and behind an equals sign a value. -/
def long (switches : List Switch) (text : List Char) (given : Given) : Except Usage Given :=
  let name := String.ofList (text.takeWhile (· != '='))
  match switches.find? (·.name == name), text.dropWhile (· != '=') with
  | none, _ => .error .unknownArgument
  | some (.flag flag), [] => given.raise flag
  | some (.flag _), _ :: _ => .error .unneededValue
  | some (.choice choice), [] => given.await choice
  | some (.choice choice), _ :: value => given.attach choice (String.ofList value)

/-- Takes the text behind one dash: letters of flags, and at the end the letter of a choice with the value attached to
it, if there is one. An equals sign may stand in front of the value. -/
def letters (switches : List Switch) : List Char → Given → Except Usage Given
  | [], given => .ok given
  | c :: cs, given => match switches.find? (·.letter? == some c), cs with
    | none, _ => .error .unknownArgument
    | some (.flag flag), cs => do letters switches cs (← given.raise flag)
    | some (.choice choice), [] => given.await choice
    | some (.choice choice), '=' :: value => given.attach choice (String.ofList value)
    | some (.choice choice), value => given.attach choice (String.ofList value)

/-- Takes one argument. -/
def argument (switches : List Switch) (text : String) (given : Given) : Except Usage Given :=
  match text.toList with
  | '-' :: '-' :: cs => given.long switches cs
  | '-' :: c :: cs => given.letters switches (c :: cs)
  | _ => given.word text

/-- Whether an argument is read as a switch. -/
def isSwitch (text : String) : Bool :=
  match text.toList with
  | '-' :: _ :: _ => true
  | _ => false

/-- Takes the arguments behind a verb. Nothing may follow two dashes that stand alone. -/
def arguments (switches : List Switch) : List String → Given → Except Usage Given
  | [], given => given.settle
  | text :: texts, given =>
    if text == "--" then (if texts.isEmpty then given.settle else .error .unknownArgument)
    else do arguments switches texts (← given.argument switches text)

/-- The first value of a choice. -/
def value? (given : Given) (choice : Choice) : Option String := given.values.lookup choice

/-- How often a flag was taken. -/
def count (given : Given) (flag : Flag) : Nat := given.flags.count flag

end Given

/-! ## Requests -/

/-- The greatest verbosity that is told apart. -/
def verbosityLimit : Nat := 255

/-- The job that a verb and its outputs ask for. -/
def jobOf (given : Given) : Verb → Except Usage Job
  | .generate => match given.value? .out, given.value? .outDir with
    | some _, some _ => .error .conflict
    | none, some folder => .ok (.generateInto ⟨folder⟩)
    | some out, none => .ok (.generate (.file ⟨out⟩))
    | none, none => .ok (.generate .screen)
  | .inspect => match given.value? .out with
    | some out => .ok (.inspect (.file ⟨out⟩))
    | none => .ok (.inspect .screen)

/-- The request for a verb, from what stands in front of it and behind it. -/
def requestOf (ahead given : Given) (verb : Verb) : Except Usage Request := do
  let job ← jobOf given verb
  let inputs := (given.values.filter (·.1 == .input)).map Prod.snd
  if inputs.isEmpty then throw .missingChoice
  let verbosity := if given.count .verbose = 0 then ahead.count .verbose else given.count .verbose
  return {
    job
    pointer := given.value? .pointer
    inputs
    optionsFile := (given.value? .optionsFile).map Path.mk
    target := do Target.words.lookup (← given.value? .target)
    enclosing := given.value? .enclosing
    rootType := given.value? .rootType
    onCollision := do OnCollision.words.lookup (← given.value? .onCollision)
    onNull := do OnNull.words.lookup (← given.value? .onNull)
    noOp := given.count .noOp ≠ 0
    verbosity := min verbosity verbosityLimit
    quiet := ahead.count .quiet ≠ 0 || given.count .quiet ≠ 0 }

/-- What a request for help behind the word for it comes to: help about one verb at most. -/
def helpAbout : List String → Usage
  | [] => .help
  | [word] => if (Verb.ofWord? word).isSome || word == helpWord then .help else .unknownVerb
  | _ => .unknownVerb

/-- The request that arguments make, given what stood in front of them. -/
def requestFrom (ahead : Given) : List String → Except Usage Request
  | [] => .error (if ahead.flags.isEmpty then .noArguments else .missingVerb)
  | ["--"] => .error (if ahead.flags.isEmpty then .noArguments else .missingVerb)
  | text :: texts =>
    if text == "--" then
      .error (if texts.head?.any fun word => (Verb.ofWord? word).isSome || word == helpWord then .unknownArgument
        else .unknownVerb)
    else if Given.isSwitch text then do requestFrom (← ahead.argument Switch.ahead text) texts
    else match Verb.ofWord? text with
      | some verb => do requestOf ahead (← ({} : Given).arguments verb.switches texts) verb
      | none => .error (if text == helpWord then helpAbout texts else .unknownVerb)

/-- The request that a list of arguments makes. -/
def Request.ofArguments? (arguments : List String) : Except Usage Request := requestFrom {} arguments

end TypedSettings.CommandLine
