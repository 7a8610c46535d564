import TypedSettings.Json.Layout
import TypedSettings.Json.Reader
import TypedSettings.Options.Fault

/-!
# Reading options

Options are written as a JSON object with some of the fields, or as a list of the values of the first fields in their
order. A field with a few possible values holds the word for one of them, or an object with the word as its key and a
null. `Options.read` reads options at the front of a text, and `Options.ofJson?` does not look at what follows them.
-/

namespace TypedSettings.Options

open Json

/-! ## Values -/

/-- What is wrong with a value of another kind than the expected one. A value that can be read is named, a list or an
object by its kind alone. -/
def wrongKind (expected : Expected) (text : List Char) : Fault :=
  let named (found : Found) (rest : List Char) : Fault := ⟨[], .wrongKind found expected, size rest⟩
  let read {α : Type} {rest : List Char} (found : α → Found) : Except Json.Fault (Taken α rest) → Fault
    | .ok taken => named (found taken.value) taken.rest
    | .error fault => .ofJson [] fault
  match text with
  | 'n' :: rest => read (fun _ => .null) (readWord ['u', 'l', 'l'] rest)
  | 't' :: rest => read (fun _ => .bool true) (readWord ['r', 'u', 'e'] rest)
  | 'f' :: rest => read (fun _ => .bool false) (readWord ['a', 'l', 's', 'e'] rest)
  | '"' :: rest => read .string (readString rest)
  | '-' :: rest => read .number ((readNumber true rest).map Part.taken)
  | '[' :: rest => named .list ('[' :: rest)
  | '\x7b' :: rest => named .object ('\x7b' :: rest)
  | c :: rest =>
    if c.isDigit then read .number ((readNumber false (c :: rest)).map Part.taken)
    else .ofJson [] (.within .valueExpected (c :: rest))
  | [] => .ofJson [] (.within .valueExpected [])

/-- Reads a text, expected as such or as the name of a variant. -/
def readText (expected : Expected) (text : List Char) : Except Fault (Part String text) :=
  match h : skipBlanks text with
  | [] => .error (.ofJson [] (.within .endOfValue []))
  | '"' :: rest =>
    match readString rest with
    | .ok s => .ok ((s.behind '"').fromMark h)
    | .error fault => .error (.ofJson [] fault)
  | c :: rest => .error (wrongKind expected (c :: rest))

/-- Reads the null that stands behind the name of a variant. -/
def readNull (text : List Char) : Except Fault (Part Unit text) :=
  match h : skipBlanks text with
  | [] => .error (.ofJson [] (.within .endOfValue []))
  | 'n' :: rest =>
    match readWord ['u', 'l', 'l'] rest with
    | .ok null => .ok ((null.behind 'n').fromMark h)
    | .error fault => .error (.ofJson [] fault)
  | c :: rest => .error (wrongKind .unit (c :: rest))

/-- Reads the word of a variant. -/
def readWordOf {α : Type} (words : List (String × α)) (text : List Char) : Except Fault (Part (String × α) text) := do
  let word ← readText .variantName text
  match words.lookup word.value with
  | some variant => return word.map fun name => (name, variant)
  | none => throw ⟨[], .unknownVariant word.value (words.map Prod.fst), size word.rest⟩

/-- Takes the closing brace behind a variant that is written as an object. -/
def readVariantEnd (text : List Char) : Except Fault (Taken Unit text) :=
  match h : skipBlanks text with
  | [] => .error (.ofJson [] (.before .endOfObject []))
  | '\x7d' :: _ => .ok (.pastMark h (.here ()))
  | c :: rest => .error (.ofJson [] (.before .valueExpected (c :: rest)))

/-- Reads a variant: its word, or an object with the word and a null. -/
def readVariant {α : Type} (words : List (String × α)) (text : List Char) : Except Fault (Part α text) :=
  match h : skipBlanks text with
  | [] => .error (.ofJson [] (.within .endOfValue []))
  | '"' :: rest => do
    let word ← readWordOf words ('"' :: rest)
    return (word.map Prod.snd).widen (h ▸ length_skipBlanks_le text)
  | '\x7b' :: rest => do
    let word ← readWordOf words rest
    let colon ← (readColon word.rest).mapError (.ofJson [])
    let null ← (readNull colon.rest).mapError (.under (.name word.value.1))
    let brace ← readVariantEnd null.rest
    return ⟨word.value.2, brace.rest, by
      have := length_skipBlanks_le text
      have := word.lt
      have := colon.le
      have := null.lt
      have := brace.le
      simp only [h, List.length_cons] at *
      omega⟩
  | c :: rest => .error (.ofJson [] (.within .valueExpected (c :: rest)))

/-- Reads the value of a field. -/
def readSetting (field : Field) (text : List Char) : Except Fault (Part Setting text) :=
  match field with
  | .enclosing => do return (← readText .text text).map .enclosing
  | .rootType => do return (← readText .text text).map .rootType
  | .target => do return (← readVariant Target.words text).map .target
  | .onCollision => do return (← readVariant OnCollision.words text).map .onCollision
  | .onNull => do return (← readVariant OnNull.words text).map .onNull
  | .providerTrait => do return (← readText .text text).map .providerTrait

/-! ## Options -/

/-- The number of bytes ahead once the closing brace of an object is taken, if it is the next mark. -/
def aheadOfBrace (text : List Char) : Nat :=
  match skipBlanks text with
  | '\x7d' :: rest => size rest
  | rest => size rest

/-- Reads the name of a field from behind its opening quote. It has to be a field that is not among those read. -/
def readField (done : List Setting) (text : List Char) : Except Fault (Taken Field text) := do
  let key ← (readString text).mapError (.ofJson [.unreadKey])
  match Field.ofName? key.value with
  | none => throw ⟨[.name key.value], .unknownField key.value, aheadOfBrace key.rest⟩
  | some field =>
    if done.any (·.field == field) then throw ⟨[], .duplicateField field, aheadOfBrace key.rest⟩
    else return key.map fun _ => field

/-- Reads the settings of an object up to its closing brace, behind those that are read. -/
def readObject (done : List Setting) (first : Bool) (text : List Char) : Except Fault (Taken (List Setting) text) := do
  let next ← (nextKey first text).mapError (.ofJson [.unreadKey])
  match next.value with
  | .close => return ⟨done, next.rest, next.le⟩
  | .part =>
    let field ← readField done next.rest
    let colon ← (readColon field.rest).mapError (.ofJson [])
    let setting ← (readSetting field.value colon.rest).mapError (.under (.name field.value.name))
    have shorter : setting.rest.length < text.length :=
      Nat.lt_of_lt_of_le setting.lt (Nat.le_trans colon.le (Nat.le_trans field.le next.le))
    let settings ← readObject (done ++ [setting.value]) false setting.rest
    return settings.widen (Nat.le_of_lt shorter)
termination_by text.length

/-- Takes the closing bracket behind a list that has a value for every field. -/
def readListEnd (text : List Char) : Except Fault (Taken Unit text) :=
  match h : skipBlanks text with
  | [] => .error (.ofJson [] (.within .endOfList []))
  | ']' :: _ => .ok (.pastMark h (.here ()))
  | ',' :: rest =>
    let more := skipBlanks rest
    .error (.ofJson [] (.within (if more.head? = some ']' then .trailingComma else .trailingCharacters) more))
  | c :: rest => .error (.ofJson [] (.within .trailingCharacters (c :: rest)))

/-- Reads the values of a list for the given fields, which begin at the place `i`, up to its closing bracket. -/
def readList (fields : List Field) (i : Nat) (text : List Char) : Except Fault (Taken (List Setting) text) :=
  match fields with
  | [] => do return (← readListEnd text).map fun _ => []
  | field :: fields => do
    let next ← (nextElement (i == 0) text).mapError (.ofJson [])
    match next.value with
    | .close => return ⟨[], next.rest, next.le⟩
    | .part =>
      let setting ← (readSetting field next.rest).mapError (.under (.index i))
      let settings ← readList fields (i + 1) setting.rest
      return (settings.map (setting.value :: ·)).widen (Nat.le_trans (Nat.le_of_lt setting.lt) next.le)

/-- Reads the settings that a text begins with. -/
def readSettings (text : List Char) : Except Fault (Part (List Setting) text) :=
  match h : skipBlanks text with
  | [] => .error (.ofJson [] (.within .endOfValue []))
  | '[' :: rest => do
    let settings ← readList Field.all 0 rest
    return (settings.behind '[').fromMark h
  | '\x7b' :: rest => do
    let settings ← readObject [] true rest
    return (settings.behind '\x7b').fromMark h
  | c :: rest => .error (wrongKind .options (c :: rest))

/-- Reads options at the front of a text. -/
def read (text : List Char) : Except Fault (Part Options text) := do
  return (← readSettings text).map (Options.setAll {})

/-- The options that a text begins with. -/
def ofJson? (text : List Char) : Except Refusal Options :=
  match read text with
  | .ok options => .ok options.value
  | .error fault => .error (fault.refusal text)

end TypedSettings.Options
