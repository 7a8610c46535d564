import TypedSettings.Identifier
import TypedSettings.Options

/-!
# Names in the nested classes

A name that the language reserves is written with an at sign in front of it. A namespace keeps the dots of the option,
and each of its parts is an identifier.
-/

namespace TypedSettings.Classes

/-- The words that the language reserves. -/
def reservedWords : List String :=
  [ "abstract", "as", "base", "bool", "break", "byte", "case", "catch", "char", "checked", "class", "const", "continue",
    "decimal", "default", "delegate", "do", "double", "else", "enum", "event", "explicit", "extern", "false", "finally",
    "fixed", "float", "for", "foreach", "goto", "if", "implicit", "in", "int", "interface", "internal", "is", "lock",
    "long", "namespace", "new", "null", "object", "operator", "out", "override", "params", "private", "protected",
    "public", "readonly", "ref", "return", "sbyte", "sealed", "short", "sizeof", "stackalloc", "static", "string",
    "struct", "switch", "this", "throw", "true", "try", "typeof", "uint", "ulong", "unchecked", "unsafe", "ushort",
    "using", "virtual", "void", "volatile", "while" ]

/-- A name that is no reserved word. -/
def verbatim (name : String) : String := if reservedWords.contains name then "@" ++ name else name

/-- The namespace that an option asks for, the default one if it names none. -/
def namespaceName (wanted : String) : String :=
  match (wanted.toList.splitOn '.').filter (!·.isEmpty) with
  | [] => ({} : Options).enclosing
  | parts => String.intercalate "." (parts.map fun part => verbatim (Identifier.ofKey (String.ofList part)).text)

end TypedSettings.Classes
