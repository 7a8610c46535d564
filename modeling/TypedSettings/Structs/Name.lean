import TypedSettings.Identifier

/-!
# Names in the module of structs

Methods have names in lower case with underscores between words (`snakeCase`), types have identifiers. A name that the
language keeps for itself is written as a raw name or with an underscore behind it (`escaped`).
-/

namespace TypedSettings.Structs

/-- Whether an upper-case letter begins a word: it stands behind a lower-case letter or a digit, or between an
upper-case and a lower-case letter. -/
def beginsWord (previous : Option Char) (following : List Char) : Bool :=
  match previous with
  | none => false
  | some p => p.isLower || p.isDigit || (p.isUpper && following.head?.any Char.isLower)

/-- Writes upper-case letters in lower case, with an underscore in front of those that begin a word. -/
def snakeChars (previous : Option Char) : List Char → List Char
  | [] => []
  | c :: cs =>
    if !c.isUpper then c :: snakeChars (some c) cs
    else if beginsWord previous cs then '_' :: c.toLower :: snakeChars (some c) cs
    else c.toLower :: snakeChars (some c) cs

/-- A name in lower case with underscores between its words. -/
def snakeCase (name : String) : String := String.ofList (snakeChars none name.toList)

/-- The words of the language that can be written as raw names. -/
def keywords : List String :=
  [ "as", "async", "await", "break", "const", "continue", "dyn", "else", "enum", "extern", "false", "fn", "for", "gen",
    "if", "impl", "in", "let", "loop", "match", "mod", "move", "mut", "pub", "ref", "return", "static", "struct", "trait",
    "true", "try", "type", "unsafe", "use", "where", "while", "abstract", "become", "box", "do", "final", "macro",
    "override", "priv", "typeof", "unsized", "virtual", "yield" ]

/-- The words of the language that cannot be written as raw names. -/
def strictKeywords : List String := ["crate", "self", "Self", "super"]

/-- A name that is no word of the language. -/
def escaped (name : String) : String :=
  if strictKeywords.contains name then name ++ "_"
  else if keywords.contains name then "r#" ++ name
  else name

/-- The types that the generated signatures take for granted. -/
def preludeTypes : List String := ["String", "Vec", "Option"]

/-- The name of a type as it is wanted by the options. -/
def typeName (wanted : String) : String :=
  let name := (Identifier.ofKey wanted).text
  if strictKeywords.contains name then name ++ "_" else name

end TypedSettings.Structs
