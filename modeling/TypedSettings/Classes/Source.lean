import TypedSettings.Classes.Class
import TypedSettings.Classes.Literal
import TypedSettings.Generator
import TypedSettings.Text.Lines

/-!
# The source text of the nested classes

Every class is a list of lines, with the lines of a class inside it right behind the property that makes its objects.
Keys reach the text through literals and comments only.
-/

namespace TypedSettings.Classes

open Text

/-- The lines in front of the namespace. -/
def headerLines : List Line :=
  [ ⟨0, "// <auto-generated>"⟩,
    ⟨0, "//     Generated by " ++ generatorName ++ ". Do not edit."⟩,
    ⟨0, "// </auto-generated>"⟩,
    ⟨0, "using System;"⟩,
    ⟨0, "using System.Globalization;"⟩,
    ⟨0, "using System.Linq;"⟩,
    ⟨0, "using Microsoft.Extensions.Configuration;"⟩,
    blank ]

/-- The line of the namespace. -/
def namespaceLine (name : String) : Line := ⟨0, "namespace " ++ name ++ ";"⟩

/-- The field and the constructor of a class, each with an empty line behind it. -/
def constructorLines (depth : Nat) (name : String) : List Line :=
  [ ⟨depth, "private readonly IConfiguration _configuration;"⟩,
    blank,
    ⟨depth, "public " ++ name ++ "(IConfiguration configuration)"⟩,
    ⟨depth, "\x7b"⟩,
    ⟨depth + 1, "_configuration = configuration;"⟩,
    ⟨depth, "\x7d"⟩,
    blank ]

/-- The comment that shows the address of a property. -/
def commentLine (depth : Nat) (address : Address) : Line :=
  ⟨depth, "/// <summary>Configuration key: \"" ++ summaryText address.text ++ "\"</summary>"⟩

/-- The property of a scalar, given the literal of its address. -/
def scalarProperty (name key : String) : Scalar → String
  | .string => "public string " ++ name ++ " => _configuration[" ++ key ++ "] ?? string.Empty;"
  | .integer => "public int " ++ name ++ " => int.TryParse(_configuration[" ++ key ++
      "], NumberStyles.Integer, CultureInfo.InvariantCulture, out var value) ? value : 0;"
  | .float => "public double " ++ name ++ " => double.TryParse(_configuration[" ++ key ++
      "], NumberStyles.Float, CultureInfo.InvariantCulture, out var value) ? value : 0.0;"
  | .boolean => "public bool " ++ name ++ " => bool.TryParse(_configuration[" ++ key ++ "], out var value) && value;"

/-- The property of a list, given the literal of its address. -/
def listProperty (name key : String) : String :=
  "public string[] " ++ name ++ " => _configuration.GetSection(" ++ key ++
    ").GetChildren().Select(c => c.Value ?? string.Empty).ToArray();"

/-- The property that makes an object of a class inside. -/
def objectProperty (name type : String) : String :=
  "public " ++ type ++ " " ++ name ++ " => new " ++ type ++ "(_configuration);"

/-- The value that the indexer reads. -/
def indexerBody (address : Address) : String :=
  if address.isRoot then "_configuration[key]" else "_configuration[" ++ literal address.stem ++ " + key]"

/-- The indexer, behind an empty line. -/
def indexerLines (depth : Nat) (address : Address) : List Line :=
  [ blank,
    ⟨depth, "/// <summary>Access configuration values by exact key name (useful for keys with special characters)</summary>"⟩,
    ⟨depth, "public string this[string key] => " ++ indexerBody address ++ " ?? string.Empty;"⟩ ]

mutual

/-- The lines of a class; a class inside another one has an empty line behind it. -/
def classLines (depth : Nat) : Class → List Line
  | ⟨name, address, members, hasIndexer⟩ =>
    [⟨depth, "public class " ++ verbatim name⟩, ⟨depth, "\x7b"⟩] ++
    constructorLines (depth + 1) (verbatim name) ++
    memberLines (depth + 1) members ++
    (if hasIndexer then indexerLines (depth + 1) address else []) ++
    [⟨depth, "\x7d"⟩] ++
    (if depth = 0 then [] else [blank])

/-- The lines of a list of properties. -/
def memberLines (depth : Nat) : List Member → List Line
  | [] => []
  | ⟨name, address, isCommented, gives⟩ :: members =>
    (if isCommented then [commentLine depth address] else []) ++
    propertyLines depth (verbatim name) (literal address.text) gives ++
    memberLines depth members

/-- The lines of a property, and those of the class whose objects it makes. -/
def propertyLines (depth : Nat) (name key : String) : Gives → List Line
  | .scalar kind => [⟨depth, scalarProperty name key kind⟩]
  | .list => [⟨depth, listProperty name key⟩]
  | .object type => [⟨depth, objectProperty name type.name⟩, blank] ++ classLines depth type

end

/-- The lines of the class of a document in a namespace. -/
def sourceLines (space : String) (root : Class) : List Line :=
  headerLines ++ [namespaceLine space, blank] ++ classLines 0 root

/-- The text of the classes of one document. -/
def source (options : Options) (root : Section) : String :=
  renderLines (sourceLines (namespaceName options.enclosing) (Class.plan options root))

end TypedSettings.Classes
