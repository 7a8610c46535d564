import TypedSettings.Text.Capital

/-!
# Identifiers for raw keys

An identifier only names a generated accessor: what is read at run time goes through the raw key, so nothing here can
change which value an accessor reads. `Identifier.ofKey` gives every key a name that both targets accept, in three
steps: the key's words with their first characters raised (`Key.words`), everything that a name cannot hold squeezed
into single underscores (`squeeze`), and the ends made fit (`trim`, `finish`).

`Key.isPlain` tells the keys from which the identifier loses nothing but letter case and underscores.
-/

namespace TypedSettings

/-- The name of a generated accessor. -/
structure Identifier where
  text : String
  deriving DecidableEq, Repr, Inhabited

/-- The characters of a name besides the underscore: ASCII letters and digits. -/
def isWordChar (c : Char) : Bool := c.isAlphanum

namespace Key

/-- The first parts of dotted vendor namespaces, whose inner `_` and `-` do not separate words. -/
def vendors : List String := ["Microsoft.", "System."]

/-- The characters that separate the words of a key. -/
def isDelimiter (c : Char) : Bool := c == '.' || c == '-' || c == '_' || c == ' '

/-- Whether a key belongs to a vendor namespace. -/
def isVendored (key : List Char) : Bool := vendors.any fun vendor => vendor.toList.isPrefixOf key

/-- The words of a key: its non-empty parts between dots for a vendored key, between delimiters for any other. -/
def words (key : List Char) : List (List Char) :=
  (if isVendored key then key.splitOnP (· == '.') else key.splitOnP isDelimiter).filter (!·.isEmpty)

/-- Whether a key is made of ASCII letters, digits and underscores only, and of one of them at least. -/
def isPlain (key : String) : Bool :=
  !key.toList.isEmpty && key.toList.all fun c => isWordChar c || c == '_'

end Key

namespace Identifier

/-- The name of a key that has no letter and no digit. -/
def placeholder : List Char := "Property".toList

/-- Writes `_` for every run of characters that are neither letters nor digits; `after` tells whether the last
character written is an underscore. -/
def squeeze (after : Bool) : List Char → List Char
  | [] => []
  | c :: cs =>
    if isWordChar c then c :: squeeze false cs
    else if after then squeeze true cs
    else '_' :: squeeze true cs

/-- A text without the underscores at its ends. -/
def trim (cs : List Char) : List Char :=
  ((cs.dropWhile (· == '_')).reverse.dropWhile (· == '_')).reverse

/-- Gives an empty text the placeholder, and puts an underscore in front of a digit. -/
def finish : List Char → List Char
  | [] => placeholder
  | c :: cs => if c.isDigit then '_' :: c :: cs else c :: cs

/-- The identifier of a raw key. -/
def ofKey (key : String) : Identifier :=
  ⟨String.ofList (finish (trim (squeeze false ((Key.words key.toList).flatMap Text.capitalized))))⟩

/-- Whether two underscores follow each other. -/
def hasDoubleUnderscore : List Char → Bool
  | '_' :: '_' :: _ => true
  | _ :: cs => hasDoubleUnderscore cs
  | [] => false

/-- Whether a name starts like an identifier: with a letter, or with an underscore and a digit. -/
def startsWell : List Char → Bool
  | '_' :: c :: _ => c.isDigit
  | c :: _ => c.isAlpha
  | [] => false

/-- Whether a text is an identifier: letters, digits and single underscores, none at the end, and one at the start
only in front of a digit. -/
def isWellFormed (text : String) : Bool :=
  let cs := text.toList
  startsWell cs && cs.all (fun c => isWordChar c || c == '_') && !hasDoubleUnderscore cs && cs.getLast? != some '_'

/-- The same name with a number behind it. -/
def numbered (name : Identifier) (n : Nat) : Identifier := ⟨name.text ++ toString n⟩

end Identifier

end TypedSettings
