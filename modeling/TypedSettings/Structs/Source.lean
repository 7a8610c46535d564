import TypedSettings.Generator
import TypedSettings.Structs.Module
import TypedSettings.Text.Lines
import TypedSettings.Text.Quoted

/-!
# The source text of the module of structs

Every declaration is a list of lines. Addresses are written as quoted texts, so that no key can end a literal or a line.
A `Writer` keeps the text of the modules written so far together with the type names in use, which later modules keep
clear of.
-/

namespace TypedSettings.Structs

open Text

/-- The first line of every module. -/
def header : Line := ⟨0, "// @generated by " ++ generatorName ++ ". Do not edit."⟩

/-- The literal of an address. -/
def literal (address : Address) : String := quoted address.text

/-- The declaration of the provider trait. -/
def traitLines (provider : String) : List Line :=
  [ ⟨1, "/// Colon-addressed configuration source the accessors read from."⟩,
    ⟨1, "pub trait " ++ provider ++ " \x7b"⟩,
    ⟨2, "/// Raw value at `path`, if set."⟩,
    ⟨2, "fn get(&self, path: &str) -> Option<String>;"⟩,
    blank,
    ⟨2, "/// Values of the direct children of `path`, in order. Empty if unset."⟩,
    ⟨2, "fn children(&self, path: &str) -> Vec<String>;"⟩,
    ⟨1, "\x7d"⟩ ]

/-- The method that makes the struct of the whole document. -/
def makeLines (provider : String) : List Line :=
  [ ⟨2, "pub fn " ++ makeName ++ "(provider: &'a dyn " ++ provider ++ ") -> Self \x7b"⟩,
    ⟨3, "Self \x7b provider \x7d"⟩,
    ⟨2, "\x7d"⟩ ]

/-- The type that a method returns. -/
def Gives.type : Gives → String
  | .scalar .string => "String"
  | .scalar .integer => "i32"
  | .scalar .float => "f64"
  | .scalar .boolean => "bool"
  | .list => "Vec<String>"
  | .struct name => name ++ "<'a>"

/-- The expression that a method returns. -/
def Gives.body (key : String) : Gives → String
  | .scalar .string => "self.provider.get(" ++ key ++ ").unwrap_or_default()"
  | .scalar .integer => "self.provider.get(" ++ key ++ ").and_then(|v| v.trim().parse().ok()).unwrap_or(0)"
  | .scalar .float => "self.provider.get(" ++ key ++ ").and_then(|v| v.trim().parse().ok()).unwrap_or(0.0)"
  | .scalar .boolean => "self.provider.get(" ++ key ++ ").is_some_and(|v| v.trim().eq_ignore_ascii_case(\"true\"))"
  | .list => "self.provider.children(" ++ key ++ ")"
  | .struct name => name ++ " \x7b provider: self.provider \x7d"

/-- What the comment of a method calls its address. -/
def Gives.addressWord : Gives → String
  | .struct _ => "section"
  | _ => "key"

/-- The lines of a method. -/
def Method.lines (method : Method) : List Line :=
  [ ⟨2, "/// Configuration " ++ method.gives.addressWord ++ ": " ++ literal method.address⟩,
    ⟨2, "pub fn " ++ method.name ++ "(&self) -> " ++ method.gives.type ++ " \x7b"⟩,
    ⟨3, method.gives.body (literal method.address)⟩,
    ⟨2, "\x7d"⟩ ]

/-- The value that the lookup by raw key reads. -/
def lookupBody (address : Address) : String :=
  if address.stem.isEmpty then "self.provider.get(key)"
  else "self.provider.get(&[" ++ quoted address.stem ++ ", key].concat())"

/-- The lookup by raw key. -/
def lookupLines (address : Address) : List Line :=
  [ ⟨2, "/// Value by exact key name, for keys whose accessor name differs from the key."⟩,
    ⟨2, "pub fn " ++ lookupName ++ "(&self, key: &str) -> String \x7b"⟩,
    ⟨3, lookupBody address ++ ".unwrap_or_default()"⟩,
    ⟨2, "\x7d"⟩ ]

/-- The comment of a struct. -/
def Struct.comment (struct : Struct) : String :=
  if struct.isRoot then "/// Typed view over the whole configuration document."
  else "/// Accessors under " ++ literal struct.address ++ "."

/-- The methods of a struct: the one that makes it, those of the accessors and the lookup. -/
def Struct.methodLines (provider : String) (struct : Struct) : List (List Line) :=
  (if struct.isRoot then [makeLines provider] else []) ++ struct.methods.map Method.lines ++
    (if struct.hasLookup then [lookupLines struct.address] else [])

/-- The lines of a struct and its methods, behind an empty line. -/
def Struct.lines (provider : String) (struct : Struct) : List Line :=
  [ blank,
    ⟨1, struct.comment⟩,
    ⟨1, "#[derive(Clone, Copy)]"⟩,
    ⟨1, "pub struct " ++ struct.name ++ "<'a> \x7b"⟩,
    ⟨2, "provider: &'a dyn " ++ provider ++ ","⟩,
    ⟨1, "\x7d"⟩,
    blank,
    ⟨1, "impl<'a> " ++ struct.name ++ "<'a> \x7b"⟩ ] ++
  parted (struct.methodLines provider) ++
  [⟨1, "\x7d"⟩]

/-- The line that opens a module. -/
def openingLine (name : String) : Line := ⟨0, "pub mod " ++ name ++ " \x7b"⟩

/-- The lines of a module. -/
def Module.lines (m : Module) : List Line :=
  [ header,
    blank,
    openingLine m.name,
    ⟨1, "#![allow(dead_code, non_camel_case_types, clippy::all)]"⟩,
    blank ] ++
  traitLines m.provider ++
  m.structs.flatMap (Struct.lines m.provider) ++
  [⟨0, "\x7d"⟩]

/-- The text of a module. -/
def Module.text (m : Module) : String := renderLines m.lines

/-- The modules written so far: their text, and the type names in use. -/
structure Writer where
  types : Scope
  text : String

namespace Writer

/-- The writer that has written nothing. -/
def start : Writer := ⟨Scope.empty "", ""⟩

/-- Writes the module of one more document. -/
def write (options : Options) (writer : Writer) (root : Section) : Writer :=
  let (m, types) := Module.plan options writer.types root
  ⟨types, writer.text ++ m.text⟩

end Writer

/-- The text of the module of one document. -/
def source (options : Options) (root : Section) : String := (Writer.start.write options root).text

end TypedSettings.Structs
