import TypedSettings.Proofs.Address
import TypedSettings.Proofs.Classes.Keyless
import TypedSettings.Proofs.Classes.Plan
import TypedSettings.Proofs.Text.Reading

/-!
# Classes read back

A text of classes is read line by line (`readClasses`). A line of two words and a name declares a class. Of the block
behind it, the lines at the depth of its members are its own: those with a type, a name and a value are properties, and
the value of a leaf asks the configuration at a path, which is put together from literals and the key that is given
(`asks?`).

* `classBlocks_classLines`: the lines of a class have its block, and those of the classes inside it;
* `readClasses_source`: the text of a document reads back to what is planned, whatever its keys are.
-/

namespace TypedSettings.Classes

open Text

/-! ## What is read -/

/-- A property: its type, its name, and at which path its value asks the configuration, if it does. -/
structure ReadProperty where
  type : String
  name : String
  asks? : Option PathExpression
  deriving DecidableEq, Repr

/-- A class: its name, its properties, and at which paths its indexers ask. -/
structure ReadClass where
  name : String
  properties : List ReadProperty
  indexers : List PathExpression
  deriving DecidableEq, Repr

/-- A name without the mark of a reserved word. -/
def readName : List Char → String
  | '@' :: cs => String.ofList cs
  | cs => String.ofList cs

/-- What stands in front of the path where a value asks the configuration. -/
def questions : List String :=
  [ "_configuration[", "int.TryParse(_configuration[", "double.TryParse(_configuration[",
    "bool.TryParse(_configuration[", "_configuration.GetSection(" ]

/-- Reads the expression of a path in front of a closing bracket. -/
def pathExpression? (cs : List Char) : Option PathExpression :=
  match readLiteral cs with
  | some (text, rest) =>
    if " + key]".toList.isPrefixOf rest then some (.behind (String.ofList text))
    else if rest.head?.any fun c => c == ']' || c == ')' then some (.literal (String.ofList text))
    else none
  | none => if "key]".toList.isPrefixOf cs then some .key else none

/-- At which path a value asks the configuration. -/
def asks? (value : List Char) : Option PathExpression :=
  (behindAny? questions value).bind pathExpression?

/-- Reads a line as the declaration of a class. -/
def className? (line : Line) : Option String :=
  if declaresClass line.text.toList then some (readName (splitWords 2 line.text.toList).2) else none

/-- Reads a line as a property. -/
def property? (line : Line) : Option ReadProperty :=
  match splitWords 4 line.text.toList with
  | ([access, type, name, arrow], value) =>
    if access = "public".toList ∧ arrow = "=>".toList then some ⟨String.ofList type, readName name, asks? value⟩ else none
  | _ => none

/-- The words in front of the value of an indexer. -/
def indexerWords : List (List Char) := ["public", "string", "this[string", "key]", "=>"].map String.toList

/-- Reads a line as an indexer. -/
def indexer? (line : Line) : Option PathExpression :=
  let (words, value) := splitWords 5 line.text.toList
  if words = indexerWords then asks? value else none

/-- Reads the block of a class whose members stand at a depth. -/
def ReadClass.ofBlock (name : String) (depth : Nat) (lines : List Line) : ReadClass :=
  ⟨name, readAt property? depth lines, readAt indexer? depth lines⟩

/-- Reads the classes that lines declare, each with the block behind its opening brace. -/
def readClasses : List Line → List ReadClass
  | [] => []
  | line :: lines =>
    match className? line with
    | some name => .ofBlock name (line.depth + 1) (block line.depth lines.tail) :: readClasses lines
    | none => readClasses lines

/-- The block of a class: the depth of its declaration, its name as it is written, and the lines between its braces. -/
structure ClassBlock where
  depth : Nat
  name : String
  lines : List Line

/-- The blocks of the classes that lines declare. -/
def classBlocks : List Line → List ClassBlock
  | [] => []
  | line :: lines =>
    if declaresClass line.text.toList then
      ⟨line.depth, String.ofList (splitWords 2 line.text.toList).2, block line.depth lines.tail⟩ :: classBlocks lines
    else classBlocks lines

/-- Reads the block of a class. -/
def ClassBlock.read (b : ClassBlock) : ReadClass := .ofBlock (readName b.name.toList) (b.depth + 1) b.lines

/-- What is read of classes is read of their blocks. -/
theorem readClasses_eq_map (lines : List Line) : readClasses lines = (classBlocks lines).map ClassBlock.read := by
  induction lines with
  | nil => rfl
  | cons line lines ih =>
    rw [readClasses, classBlocks, className?, ih]
    split_ifs
    · rw [List.map_cons, ClassBlock.read, String.toList_ofList]
    · rfl

/-! ## What is planned -/

/-- The type of a property. -/
def Gives.type : Gives → String
  | .scalar .string => "string"
  | .scalar .integer => "int"
  | .scalar .float => "double"
  | .scalar .boolean => "bool"
  | .list => "string[]"
  | .object type => type.name

/-- At which path a property asks the configuration. -/
def Gives.asks? (address : Address) : Gives → Option PathExpression
  | .object _ => none
  | .scalar _ => some (.literal address.text)
  | .list => some (.literal address.text)

/-- A property as it is to be read. -/
def Member.shown (member : Member) : ReadProperty :=
  ⟨member.gives.type, member.name, member.gives.asks? member.address⟩

/-- A class as it is to be read. -/
def Class.shown (c : Class) : ReadClass :=
  ⟨c.name, c.members.map Member.shown, if c.hasIndexer then [c.address.lookup] else []⟩

/-! ## Names and paths -/

theorem readName_verbatim {name : String} (h : IsNameText name) : readName (verbatim name).toList = name := by
  unfold verbatim
  split
  · rw [String.toList_append]
    exact String.ofList_toList
  · have hmark : '@' ∉ name.toList := h.not_mem (by decide)
    unfold readName
    split
    · rename_i cs hcs
      rw [hcs] at hmark
      exact absurd List.mem_cons_self hmark
    · exact String.ofList_toList

/-- A literal in front of a bracket is the path. -/
theorem pathExpression?_literal {text key : String} (hkey : IsLiteralOf text key) {rest : List Char}
    (hfree : " + key]".toList.isPrefixOf rest = false)
    (hclose : (rest.head?.any fun c => c == ']' || c == ')') = true) :
    pathExpression? (key.toList ++ rest) = some (.literal text) := by
  rw [pathExpression?, hkey rest]
  simp only [hfree, hclose, if_true, String.ofList_toList]
  rfl

theorem apart_questions : Apart questions := by
  unfold Apart
  decide

/-- Behind a question stands the path. -/
theorem asks?_append {question : String} (h : question ∈ questions) (cs : List Char) :
    asks? (question.toList ++ cs) = pathExpression? cs := by
  rw [asks?, behindAny?_append apart_questions h, Option.bind_some]

/-- The value of an indexer asks where its section's children are. -/
theorem asks?_indexerBody (address : Address) :
    asks? (indexerBody address ++ " ?? string.Empty;").toList = some address.lookup := by
  have hquestion : "_configuration[" ∈ questions := List.mem_cons_self
  rw [Address.lookup]
  unfold indexerBody
  split
  · exact asks?_append hquestion "key] ?? string.Empty;".toList
  · have hliteral := isLiteralOf_literal address.stem " + key] ?? string.Empty;".toList
    have hvalue : ("_configuration[" ++ literal address.stem ++ " + key]" ++ " ?? string.Empty;").toList =
        "_configuration[".toList ++ ((literal address.stem).toList ++ " + key] ?? string.Empty;".toList) := by
      simp only [String.toList_append, List.append_assoc]
      rfl
    rw [hvalue, asks?_append hquestion, pathExpression?, hliteral]
    simp only [String.ofList_toList]
    rfl

/-! ## Lines of a class -/

/-- The mark of a reserved word is the only character that it adds to a name. -/
theorem not_mem_verbatim {name : String} (h : IsNameText name) {c : Char} (hc : isWordChar c = false ∧ c ≠ '_')
    (hmark : c ≠ '@') : c ∉ (verbatim name).toList := by
  unfold verbatim
  split
  · rw [String.toList_append, List.mem_append, not_or]
    exact ⟨fun hmem => hmark (List.mem_singleton.mp hmem), h.not_mem hc⟩
  · exact h.not_mem hc

theorem blank_not_mem_verbatim {name : String} (h : IsNameText name) : ' ' ∉ (verbatim name).toList :=
  not_mem_verbatim h (by decide) (by decide)

/-- The line of a property, given its value. -/
def propertyText (type name value : String) : String := "public " ++ type ++ " " ++ name ++ " => " ++ value

theorem toList_propertyText (type name value : String) : (propertyText type name value).toList =
    "public".toList ++ ' ' :: (type.toList ++ ' ' :: (name.toList ++ ' ' :: ("=>".toList ++ ' ' :: value.toList))) := by
  simp only [propertyText, String.toList_append, List.append_assoc]
  rfl

section PropertyText

variable {type name : String} (htype : ' ' ∉ type.toList) (hname : IsNameText name) (depth : Nat) (value : String)

include htype hname

/-- A line with a type, a name and a value is a property. -/
theorem property?_propertyText :
    property? ⟨depth, propertyText type (verbatim name) value⟩ = some ⟨type, name, asks? value.toList⟩ := by
  rw [property?, toList_propertyText, splitWords_append (by decide), splitWords_append htype,
    splitWords_append (blank_not_mem_verbatim hname), splitWords_append (by decide), splitWords]
  simp only [and_self, if_true, String.ofList_toList, readName_verbatim hname]

/-- It is no indexer. -/
theorem indexer?_propertyText : indexer? ⟨depth, propertyText type (verbatim name) value⟩ = none := by
  rw [indexer?, toList_propertyText, splitWords_append (by decide), splitWords_append htype,
    splitWords_append (blank_not_mem_verbatim hname), splitWords_append (by decide)]
  refine if_neg fun h => ?_
  simp only [indexerWords, List.map_cons, List.cons.injEq] at h
  exact absurd h.2.2.2.1 (by decide)

end PropertyText

/-- The value of a leaf asks at its address. -/
theorem asks?_leaf {question : String} (h : question ∈ questions) (address : Address) {rest : String}
    (hfree : " + key]".toList.isPrefixOf rest.toList = false)
    (hclose : (rest.toList.head?.any fun c => c == ']' || c == ')') = true) :
    asks? (question ++ literal address.text ++ rest).toList = some (.literal address.text) := by
  rw [String.toList_append, String.toList_append, List.append_assoc, asks?_append h,
    pathExpression?_literal (isLiteralOf_literal address.text) hfree hclose]

/-- How the line of a leaf is put together: the type and the question in it, and what stands behind the path. -/
structure IsLeafLine (access : Access) (declaration before behind type question : String) : Prop where
  declaration : declaration = "public " ++ type ++ " "
  before : before = " => " ++ question
  mem : question ∈ questions
  free : " + key]".toList.isPrefixOf behind.toList = false
  close : (behind.toList.head?.any fun c => c == ']' || c == ')') = true
  isWord : IsWord type
  ne_class : type.toList ≠ "class".toList
  type : ∀ property scope, (planGives property scope access).1.type = type

theorem Reads.exists_isLeafLine {access : Access} {declaration before behind : String}
    (h : Reads access declaration before behind) :
    ∃ type question, IsLeafLine access declaration before behind type question := by
  cases h with
  | string => exact ⟨"string", "_configuration[", rfl, rfl, by decide, by decide, by decide, isWord_ofList (by decide),
      by decide, fun _ _ => rfl⟩
  | integer => exact ⟨"int", "int.TryParse(_configuration[", rfl, rfl, by decide, by decide, by decide,
      isWord_ofList (by decide), by decide, fun _ _ => rfl⟩
  | float => exact ⟨"double", "double.TryParse(_configuration[", rfl, rfl, by decide, by decide, by decide,
      isWord_ofList (by decide), by decide, fun _ _ => rfl⟩
  | boolean => exact ⟨"bool", "bool.TryParse(_configuration[", rfl, rfl, by decide, by decide, by decide,
      isWord_ofList (by decide), by decide, fun _ _ => rfl⟩
  | list => exact ⟨"string[]", "_configuration.GetSection(", rfl, rfl, by decide, by decide, by decide,
      isWord_ofList (by decide), by decide, fun _ _ => rfl⟩

theorem asks?_planGives {access : Access} (hleaf : access.nested? = none) (property : String) (scope : Scope)
    (address : Address) : (planGives property scope access).1.asks? address = some (.literal address.text) := by
  cases access with
  | scalar kind => rfl
  | list => rfl
  | nested child => cases hleaf

/-- The property of a leaf is one line. -/
theorem exists_leafLine {access : Access} (hleaf : access.nested? = none) (depth : Nat) (name property : String)
    (scope : Scope) (address : Address) :
    ∃ type value, propertyLines depth name (literal address.text) (planGives property scope access).1 =
        [⟨depth, propertyText type name value⟩] ∧ type = (planGives property scope access).1.type ∧
      asks? value.toList = (planGives property scope access).1.asks? address ∧ IsWord type ∧
      type.toList ≠ "class".toList := by
  obtain ⟨declaration, before, behind, hreads, hlines⟩ := exists_reads hleaf
  obtain ⟨type, question, hleafLine⟩ := hreads.exists_isLeafLine
  refine ⟨type, question ++ literal address.text ++ behind, ?_, (hleafLine.type property scope).symm, ?_, hleafLine.isWord,
    hleafLine.ne_class⟩
  · rw [hlines, hleafLine.declaration, hleafLine.before, propertyText]
    simp only [String.append_assoc]
  · rw [asks?_leaf hleafLine.mem address hleafLine.free hleafLine.close, asks?_planGives hleaf]

theorem objectProperty_eq (name type : String) :
    objectProperty name type = propertyText type name ("new " ++ type ++ "(_configuration);") := by
  refine String.toList_inj.mp ?_
  simp only [objectProperty, propertyText, String.toList_append, List.append_assoc]
  rfl

/-- The property that makes an object asks at no path. -/
theorem asks?_object (type : String) : asks? ("new " ++ type ++ "(_configuration);").toList = none := by
  have hapart : ∀ question ∈ questions, ¬question.toList <+: "new ".toList ∧ ¬"new ".toList <+: question.toList := by
    decide
  rw [String.toList_append, String.toList_append, List.append_assoc, asks?, behindAny?_eq_none hapart, Option.bind_none]

/-! ### Lines that are no members -/

/-- No line is a property or an indexer. -/
def NoMembers (lines : List Line) : Prop := ∀ line ∈ lines, property? line = none ∧ indexer? line = none

theorem noMembers_nil : NoMembers [] := List.forall_mem_nil _

theorem NoMembers.cons {line : Line} {lines : List Line} (hline : property? line = none ∧ indexer? line = none)
    (h : NoMembers lines) : NoMembers (line :: lines) := List.forall_mem_cons.mpr ⟨hline, h⟩

theorem noMember_of_ofList {depth : Nat} {cs : List Char} (h : property? ⟨0, String.ofList cs⟩ = none ∧
    indexer? ⟨0, String.ofList cs⟩ = none) :
    property? ⟨depth, String.ofList cs⟩ = none ∧ indexer? ⟨depth, String.ofList cs⟩ = none := h

/-- A line whose first word is not `public` is no member. -/
theorem noMember_of_first {first : String} (hfirst : ' ' ∉ first.toList) (hne : first.toList ≠ "public".toList)
    (depth : Nat) (rest : String) : property? ⟨depth, first ++ " " ++ rest⟩ = none ∧
      indexer? ⟨depth, first ++ " " ++ rest⟩ = none := by
  have htext : (first ++ " " ++ rest).toList = first.toList ++ ' ' :: rest.toList := by
    simp only [String.toList_append, List.append_assoc]
    rfl
  rw [property?, indexer?, htext, splitWords_append hfirst, splitWords_append hfirst]
  constructor
  · split
    · rename_i heq
      have hhead := (List.cons.inj (Prod.mk.inj heq).1).1
      rw [← hhead, if_neg fun h => hne h.1]
    · rfl
  · refine if_neg fun h => ?_
    exact hne (List.cons.inj h).1

/-- Neither is a line of three words. -/
theorem noMember_of_three {first second third : String} (hfirst : ' ' ∉ first.toList) (hsecond : ' ' ∉ second.toList)
    (hthird : ' ' ∉ third.toList) (depth : Nat) :
    property? ⟨depth, first ++ " " ++ second ++ " " ++ third⟩ = none ∧
      indexer? ⟨depth, first ++ " " ++ second ++ " " ++ third⟩ = none := by
  have htext : (first ++ " " ++ second ++ " " ++ third).toList =
      first.toList ++ ' ' :: (second.toList ++ ' ' :: third.toList) := by
    simp only [String.toList_append, List.append_assoc]
    rfl
  rw [property?, indexer?, htext, splitWords_append hfirst, splitWords_append hsecond, splitWords_word hthird,
    splitWords_append hfirst, splitWords_append hsecond, splitWords_word hthird]
  refine ⟨if_neg fun h => absurd h.2 (by decide), if_neg fun h => ?_⟩
  simp only [indexerWords, List.map_cons, List.cons.injEq] at h
  exact absurd h.2.2.2 (by decide)

theorem noMembers_constructorLines (depth : Nat) {name : String} (h : ' ' ∉ name.toList) :
    NoMembers (constructorLines depth name) := by
  have htext : "public " ++ name ++ "(IConfiguration configuration)" =
      "public" ++ " " ++ (name ++ "(IConfiguration") ++ " " ++ "configuration)" := by
    refine String.toList_inj.mp ?_
    simp only [String.toList_append, List.append_assoc]
    rfl
  have hsecond : ' ' ∉ (name ++ "(IConfiguration").toList := by
    rw [String.toList_append, List.mem_append, not_or]
    exact ⟨h, by decide⟩
  have hconstructor : property? ⟨depth, "public " ++ name ++ "(IConfiguration configuration)"⟩ = none ∧
      indexer? ⟨depth, "public " ++ name ++ "(IConfiguration configuration)"⟩ = none := by
    rw [htext]
    exact noMember_of_three (by decide) hsecond (by decide) depth
  have hblank : property? blank = none ∧ indexer? blank = none := by decide
  exact .cons (noMember_of_ofList (by decide)) <| .cons hblank <| .cons hconstructor <|
    .cons (noMember_of_ofList (by decide)) <| .cons (noMember_of_ofList (by decide)) <|
    .cons (noMember_of_ofList (by decide)) <| .cons hblank noMembers_nil

theorem noMembers_commentLines (depth : Nat) (accessor : Accessor) : NoMembers (commentLines depth accessor) := by
  unfold commentLines commentLine
  split
  · refine .cons ?_ noMembers_nil
    rw [show "/// <summary>Configuration key: \"" = "///" ++ " " ++ "<summary>Configuration key: \"" from rfl,
      String.append_assoc, String.append_assoc]
    exact noMember_of_first (by decide) (by decide) depth _
  · exact noMembers_nil

/-! ### Depths -/

theorem allStandAt_constructorLines (depth : Nat) (name : String) : AllStandAt depth (constructorLines depth name) :=
  .cons (beginsFlush_ofList (by decide)) le_rfl <| .cons_blank <|
    .cons (((beginsFlush_ofList (by decide)).append name).append _) le_rfl <|
    .cons (beginsFlush_ofList (by decide)) le_rfl <| .cons (beginsFlush_ofList (by decide)) (Nat.le_succ depth) <|
    .cons (beginsFlush_ofList (by decide)) le_rfl <| .cons_blank allStandAt_nil

theorem allStandAt_indexerLines (depth : Nat) (address : Address) : AllStandAt depth (indexerLines depth address) :=
  .cons_blank <| .cons (beginsFlush_ofList (by decide)) le_rfl <|
    .cons (((beginsFlush_ofList (by decide)).append _).append _) le_rfl allStandAt_nil

theorem beginsFlush_scalarProperty (name key : String) (kind : Scalar) : BeginsFlush (scalarProperty name key kind) := by
  cases kind <;> exact ((((beginsFlush_ofList (by decide)).append _).append _).append _).append _

/-- The lines between the braces of a class whose members stand at a depth. -/
def bodyLines (depth : Nat) : Class → List Line
  | ⟨name, address, members, hasIndexer⟩ =>
    constructorLines depth (verbatim name) ++ memberLines depth members ++
      if hasIndexer then indexerLines depth address else []

/-- The lines of a class around those between its braces. -/
theorem classLines_eq (depth : Nat) (c : Class) : classLines depth c =
    [⟨depth, "public class " ++ verbatim c.name⟩, ⟨depth, "\x7b"⟩] ++ bodyLines (depth + 1) c ++
      ⟨depth, "\x7d"⟩ :: if depth = 0 then [] else [blank] := by
  obtain ⟨name, address, members, hasIndexer⟩ := c
  rw [classLines, bodyLines]
  simp only [List.append_assoc, List.singleton_append]

mutual

/-- The lines of a class stand at its depth or deeper. -/
theorem allStandAt_classLines : ∀ (c : Class) (depth : Nat), AllStandAt depth (classLines depth c)
  | ⟨name, address, members, hasIndexer⟩, depth => by
    have hbody := allStandAt_bodyLines ⟨name, address, members, hasIndexer⟩ (depth + 1)
    have hlast : AllStandAt depth (if depth = 0 then [] else [blank]) := by
      split
      · exact allStandAt_nil
      · exact .cons_blank allStandAt_nil
    rw [classLines_eq]
    refine AllStandAt.append (AllStandAt.append ?_ (hbody.mono (Nat.le_succ depth))) ?_
    · exact .cons ((beginsFlush_ofList (by decide)).append _) le_rfl <|
        .cons (beginsFlush_ofList (by decide)) le_rfl allStandAt_nil
    · exact .cons (beginsFlush_ofList (by decide)) le_rfl hlast

theorem allStandAt_bodyLines : ∀ (c : Class) (depth : Nat), AllStandAt depth (bodyLines depth c)
  | ⟨name, address, members, hasIndexer⟩, depth => by
    refine ((allStandAt_constructorLines _ _).append (allStandAt_memberLines members depth)).append ?_
    split
    · exact allStandAt_indexerLines depth address
    · exact allStandAt_nil

theorem allStandAt_memberLines : ∀ (members : List Member) (depth : Nat), AllStandAt depth (memberLines depth members)
  | [], _ => allStandAt_nil
  | ⟨name, address, isCommented, gives⟩ :: members, depth => by
    refine (AllStandAt.append ?_ (allStandAt_propertyLines gives depth _ _)).append
      (allStandAt_memberLines members depth)
    split
    · exact .cons (((beginsFlush_ofList (by decide)).append _).append _) le_rfl allStandAt_nil
    · exact allStandAt_nil

theorem allStandAt_propertyLines : ∀ (gives : Gives) (depth : Nat) (name key : String),
    AllStandAt depth (propertyLines depth name key gives)
  | .scalar kind, depth, name, key => .cons (beginsFlush_scalarProperty name key kind) le_rfl allStandAt_nil
  | .list, depth, name, key => by
    refine .cons ?_ le_rfl allStandAt_nil
    exact ((((beginsFlush_ofList (by decide)).append _).append _).append _).append _
  | .object type, depth, name, key => by
    refine AllStandAt.append (.cons ?_ le_rfl (.cons_blank allStandAt_nil)) (allStandAt_classLines type depth)
    exact ((((((beginsFlush_ofList (by decide)).append _).append _).append _).append _).append _).append _

end

/-! ## Members read back -/

section Members

variable {α : Type} {read : Line → Option α}
  (hread : ∀ line, property? line = none ∧ indexer? line = none → read line = none)

include hread

theorem NoMembers.readAt_eq_nil {lines : List Line} (h : NoMembers lines) (depth : Nat) : readAt read depth lines = [] :=
  Text.readAt_eq_nil fun line hmem _ => hread line (h line hmem)

/-- A class inside gives no members to the class around it. -/
theorem readAt_classLines {c : Class} (hname : IsNameText c.name) (depth : Nat) :
    readAt read depth (classLines depth c) = [] := by
  have hblank : property? blank = none ∧ indexer? blank = none := by decide
  have hclass : property? ⟨depth, "public class " ++ verbatim c.name⟩ = none ∧
      indexer? ⟨depth, "public class " ++ verbatim c.name⟩ = none :=
    @noMember_of_three "public" "class" _ (by decide) (by decide) (blank_not_mem_verbatim hname) depth
  have hopening : NoMembers [⟨depth, "public class " ++ verbatim c.name⟩, ⟨depth, "\x7b"⟩] :=
    .cons hclass (.cons (noMember_of_ofList (by decide)) noMembers_nil)
  have hclosing : NoMembers (⟨depth, "\x7d"⟩ :: if depth = 0 then [] else [blank]) := by
    refine .cons (noMember_of_ofList (by decide)) ?_
    split
    · exact noMembers_nil
    · exact .cons hblank noMembers_nil
  rw [classLines_eq, readAt_append, readAt_append, hopening.readAt_eq_nil hread, hclosing.readAt_eq_nil hread,
    (allStandAt_bodyLines c (depth + 1)).readAt_eq_nil (hread blank hblank)]
  rfl

end Members

theorem readAt_commentLines {α : Type} {read : Line → Option α}
    (hread : ∀ line, property? line = none ∧ indexer? line = none → read line = none) (depth : Nat)
    (accessor : Accessor) : readAt read depth (commentLines depth accessor) = [] :=
  (noMembers_commentLines depth accessor).readAt_eq_nil hread depth

/-- The lines of a property read back to it, and to no indexer. -/
theorem readAt_propertyLines (depth : Nat) {name : String} (hname : Identifier.isWellFormed name = true) {scope : Scope}
    (hscope : scope.separator = "") (address : Address) (access : Access) :
    readAt property? depth (propertyLines depth (verbatim name) (literal address.text) (planGives name scope access).1) =
        [⟨(planGives name scope access).1.type, name, (planGives name scope access).1.asks? address⟩] ∧
      readAt indexer? depth
        (propertyLines depth (verbatim name) (literal address.text) (planGives name scope access).1) = [] := by
  have htext := isNameText_of_isWellFormed hname
  cases hleaf : access.nested? with
  | none =>
    obtain ⟨type, value, hline, rfl, hasks, hword, -⟩ := exists_leafLine hleaf depth (verbatim name) name scope address
    rw [hline, ← hasks]
    exact ⟨readAt_singleton rfl (property?_propertyText hword.not_mem htext depth value),
      readAt_eq_nil (List.forall_mem_singleton.mpr fun _ => indexer?_propertyText hword.not_mem htext depth value)⟩
  | some child =>
    obtain rfl := eq_nested_of_nested? hleaf
    obtain ⟨type, typed, htype, hwellType, -, -⟩ := exists_claim hscope (isWellFormed_settings hname)
    have hblank : property? blank = none ∧ indexer? blank = none := by decide
    have htypeText := isNameText_of_isWellFormed hwellType
    have hgives : (planGives name scope (.nested child)).1 = .object (planClass type child) := by rw [planGives, htype]
    have hclass := name_planClass type child
    have hclassText : IsNameText (planClass type child).name := hclass.symm ▸ htypeText
    have hproperty := property?_propertyText htypeText.blank_not_mem htext depth ("new " ++ type ++ "(_configuration);")
    have hindexer := indexer?_propertyText htypeText.blank_not_mem htext depth ("new " ++ type ++ "(_configuration);")
    have hlines : ([⟨depth, objectProperty (verbatim name) type⟩, blank] : List Line) =
        [⟨depth, propertyText type (verbatim name) ("new " ++ type ++ "(_configuration);")⟩] ++ [blank] := by
      rw [objectProperty_eq]
      rfl
    rw [propertyLines_nested depth _ child htype, readAt_append, readAt_append, hlines, readAt_append, readAt_append,
      readAt_singleton rfl hproperty, readAt_classLines (fun _ h => h.1) hclassText,
      readAt_classLines (fun _ h => h.2) hclassText, readAt_eq_nil (List.forall_mem_singleton.mpr fun _ => hindexer),
      readAt_eq_nil (List.forall_mem_singleton.mpr fun _ => hblank.1),
      readAt_eq_nil (List.forall_mem_singleton.mpr fun _ => hblank.2), hgives, asks?_object, Gives.type, hclass]
    exact ⟨rfl, rfl⟩

/-- **The lines of the members read back to them**, and to no indexer. -/
theorem readAt_memberLines (depth : Nat) : ∀ (accessors : List Accessor) (scope : Scope), scope.separator = "" →
    (∀ accessor ∈ accessors, accessor.IsWellNamed) →
    readAt property? depth (memberLines depth (planMembers scope accessors)) =
        (planMembers scope accessors).map Member.shown ∧
      readAt indexer? depth (memberLines depth (planMembers scope accessors)) = []
  | [], _, _, _ => ⟨rfl, rfl⟩
  | accessor :: accessors, scope, hscope, hnames => by
    obtain ⟨hname, hnames⟩ := List.forall_mem_cons.mp hnames
    obtain ⟨name, named, hclaim, hwell, -, hnamed⟩ := exists_claim hscope hname
    obtain ⟨hproperty, hindexer⟩ := readAt_propertyLines depth hwell hnamed accessor.address accessor.access
    obtain ⟨hproperties, hindexers⟩ := readAt_memberLines depth accessors (planGives name named accessor.access).2
      ((separator_planGives name named accessor.access).trans hnamed) hnames
    rw [memberLines_cons depth accessor accessors hclaim, readAt_append, readAt_append, readAt_append, readAt_append,
      readAt_commentLines (fun _ h => h.1), readAt_commentLines (fun _ h => h.2), hproperty, hindexer, hproperties,
      hindexers, planMembers_cons accessor accessors hclaim, List.map_cons]
    exact ⟨rfl, rfl⟩

/-- The lines of an indexer read back to the lookup, and to no property. -/
theorem readAt_indexerLines (depth : Nat) (address : Address) :
    readAt property? depth (indexerLines depth address) = [] ∧
      readAt indexer? depth (indexerLines depth address) = [address.lookup] := by
  have hlines : indexerLines depth address = (indexerLines depth address).take 2 ++
      [⟨depth, "public string this[string key] => " ++ indexerBody address ++ " ?? string.Empty;"⟩] := rfl
  have hfront : NoMembers ((indexerLines depth address).take 2) :=
    .cons (by decide) <| .cons (noMember_of_ofList (by decide)) noMembers_nil
  have htext : ("public string this[string key] => " ++ indexerBody address ++ " ?? string.Empty;").toList =
      "public".toList ++ ' ' :: ("string".toList ++ ' ' :: ("this[string".toList ++ ' ' :: ("key]".toList ++ ' ' ::
        ("=>".toList ++ ' ' :: (indexerBody address ++ " ?? string.Empty;").toList)))) := by
    simp only [String.toList_append, List.append_assoc]
    rfl
  have hproperty : property?
      ⟨depth, "public string this[string key] => " ++ indexerBody address ++ " ?? string.Empty;"⟩ = none := by
    rw [property?, htext, splitWords_append (by decide), splitWords_append (by decide), splitWords_append (by decide),
      splitWords_append (by decide), splitWords]
    exact if_neg fun h => absurd h.2 (by decide)
  have hindexer : indexer?
      ⟨depth, "public string this[string key] => " ++ indexerBody address ++ " ?? string.Empty;"⟩ =
        some address.lookup := by
    rw [indexer?, htext, splitWords_append (by decide), splitWords_append (by decide), splitWords_append (by decide),
      splitWords_append (by decide), splitWords_append (by decide), splitWords]
    exact (if_pos rfl).trans (asks?_indexerBody address)
  rw [hlines, readAt_append, readAt_append, hfront.readAt_eq_nil (fun _ h => h.1),
    hfront.readAt_eq_nil (fun _ h => h.2), readAt_eq_nil (List.forall_mem_singleton.mpr fun _ => hproperty),
    readAt_singleton rfl hindexer]
  exact ⟨rfl, rfl⟩

/-- The block of a class reads back to it. -/
theorem ofBlock_bodyLines (depth : Nat) {name : String} (hname : Identifier.isWellFormed name = true) {s : Section}
    (hs : ∀ accessor ∈ s.accessors, accessor.IsWellNamed) :
    ReadClass.ofBlock name depth (bodyLines depth (planClass name s)) = (planClass name s).shown := by
  obtain ⟨address, level, accessors, hasLookup⟩ := s
  have hconstructor := noMembers_constructorLines depth (blank_not_mem_verbatim (isNameText_of_isWellFormed hname))
  obtain ⟨hproperties, hindexers⟩ := readAt_memberLines depth accessors (memberScope name hasLookup)
    (separator_memberScope name hasLookup) hs
  obtain ⟨hproperty, hindexer⟩ := readAt_indexerLines depth address
  rw [planClass, ReadClass.ofBlock, bodyLines, readAt_append, readAt_append, readAt_append, readAt_append,
    hconstructor.readAt_eq_nil (fun _ h => h.1), hconstructor.readAt_eq_nil (fun _ h => h.2), hproperties, hindexers]
  cases hasLookup with
  | false => simp [Class.shown, readAt]
  | true => simp [Class.shown, hproperty, hindexer]

/-! ## Classes read back -/

/-- Lines that declare no class are passed over. -/
theorem classBlocks_append {lines : List Line} (h : DeclareNone lines) (rest : List Line) :
    classBlocks (lines ++ rest) = classBlocks rest := by
  induction lines with
  | nil => rfl
  | cons line lines ih =>
    obtain ⟨hline, hlines⟩ := List.forall_mem_cons.mp h
    rw [declaresClass_indented] at hline
    rw [List.cons_append, classBlocks, hline]
    exact ih hlines

/-- A line that declares a class begins its block, whatever the name is. -/
theorem classBlocks_class (depth : Nat) (name : String) (lines : List Line) :
    classBlocks (⟨depth, "public class " ++ name⟩ :: lines) = ⟨depth, name, block depth lines.tail⟩ :: classBlocks lines := by
  have htext : ("public class " ++ name).toList = "public".toList ++ ' ' :: ("class".toList ++ ' ' :: name.toList) :=
    String.toList_append
  have hdeclares := declaresClass_class depth name
  rw [declaresClass_indented] at hdeclares
  rw [classBlocks, if_pos hdeclares, htext, splitWords_append (by decide), splitWords_append (by decide), splitWords,
    String.ofList_toList]

/-- The line of a leaf declares no class. -/
theorem declareNone_leaf (depth : Nat) (name property : String) (scope : Scope) (address : Address) {access : Access}
    (hleaf : access.nested? = none) :
    DeclareNone (propertyLines depth name (literal address.text) (planGives property scope access).1) := by
  obtain ⟨type, value, hline, -, -, hword, hne⟩ := exists_leafLine hleaf depth name property scope address
  rw [hline, propertyText, String.append_assoc, String.append_assoc]
  exact .cons (declaresClass_of_second _ hword hne) declareNone_nil

/-- A block is that of a class, which is planned for a section with well-formed names. -/
structure Class.HasBlock (c : Class) (b : ClassBlock) : Prop where
  name : b.name = verbatim c.name
  lines : b.lines = bodyLines (b.depth + 1) c
  wellFormed : Identifier.isWellFormed c.name = true
  planned : ∃ s : Section, c = planClass c.name s ∧ ∀ accessor ∈ s.accessors, accessor.IsWellNamed

/-- The block of a class reads back to it. -/
theorem Class.HasBlock.read {c : Class} {b : ClassBlock} (h : c.HasBlock b) : b.read = c.shown := by
  obtain ⟨s, hc, hs⟩ := h.planned
  have hblock := ofBlock_bodyLines (b.depth + 1) h.wellFormed hs
  rw [← hc] at hblock
  rw [ClassBlock.read, h.name, readName_verbatim (isNameText_of_isWellFormed h.wellFormed), h.lines, hblock]

/-- The first block of a class is its own, and those of its members come behind. -/
theorem exists_classBlocks_classLines (depth : Nat) {name : String} (hname : Identifier.isWellFormed name = true)
    {s : Section} (hs : ∀ accessor ∈ s.accessors, accessor.IsWellNamed) (rest : List Line) :
    ∃ b behind, (planClass name s).HasBlock b ∧ classBlocks behind = classBlocks rest ∧
      classBlocks (classLines depth (planClass name s) ++ rest) =
        b :: classBlocks (memberLines (depth + 1) (planMembers (memberScope name s.hasLookup) s.accessors) ++ behind) := by
  obtain ⟨c, hc⟩ : ∃ c, c = planClass name s := ⟨_, rfl⟩
  have hown : c.HasBlock ⟨depth, verbatim name, bodyLines (depth + 1) c⟩ := by
    have hcname : c.name = name := hc ▸ name_planClass name s
    exact ⟨by rw [hcname], rfl, hcname.symm ▸ hname, s, by rw [hcname, hc], hs⟩
  obtain ⟨address, level, accessors, hasLookup⟩ := s
  have hopening : DeclareNone (⟨depth, "\x7b"⟩ :: constructorLines (depth + 1) (verbatim name)) :=
    .cons (declaresClass_ofList (by decide)) <|
      declareNone_constructorLines (depth + 1) (isWord_verbatim (isWord_of_isWellFormed hname))
  have hclosing : DeclareNone ((if hasLookup then indexerLines (depth + 1) address else []) ++
      ⟨depth, "\x7d"⟩ :: if depth = 0 then [] else [blank]) := by
    refine List.forall_mem_append.mpr ⟨?_, DeclareNone.cons (declaresClass_ofList (by decide)) ?_⟩
    · split
      · exact declareNone_indexerLines (depth + 1) address
      · exact declareNone_nil
    · split
      · exact declareNone_nil
      · exact .cons declaresClass_blank declareNone_nil
  refine ⟨_, _, hc ▸ hown, classBlocks_append hclosing rest, ?_⟩
  have hbody : (bodyLines (depth + 1) c ++ ⟨depth, "\x7d"⟩ :: ((if depth = 0 then [] else [blank]) ++ rest)) =
      constructorLines (depth + 1) (verbatim name) ++
        (memberLines (depth + 1) (planMembers (memberScope name hasLookup) accessors) ++
          ((if hasLookup then indexerLines (depth + 1) address else []) ++
            ⟨depth, "\x7d"⟩ :: (if depth = 0 then [] else [blank]) ++ rest)) := by
    rw [hc, planClass, bodyLines]
    simp only [List.append_assoc, List.cons_append]
  have hlines : classLines depth c ++ rest =
      ⟨depth, "public class " ++ verbatim name⟩ :: ⟨depth, "\x7b"⟩ ::
        (bodyLines (depth + 1) c ++ ⟨depth, "\x7d"⟩ :: ((if depth = 0 then [] else [blank]) ++ rest)) := by
    rw [classLines_eq, hc, name_planClass]
    simp only [List.append_assoc, List.cons_append, List.nil_append]
  rw [← hc, hlines, classBlocks_class, List.tail_cons, block_append (allStandAt_bodyLines c (depth + 1)), hbody]
  exact congrArg _ (classBlocks_append hopening _)

mutual

/-- **The lines of a class have its block and those of the classes inside it.** -/
theorem classBlocks_classLines : ∀ (s : Section) (name : String) (depth : Nat) (rest : List Line),
    s.HasWellFormedNames → Identifier.isWellFormed name = true →
    ∃ blocks, classBlocks (classLines depth (planClass name s) ++ rest) = blocks ++ classBlocks rest ∧
      List.Forall₂ Class.HasBlock (planClass name s).walk blocks
  | ⟨address, level, accessors, hasLookup⟩, name, depth, rest, hs, hname => by
    obtain ⟨b, behind, hb, hbehind, hblocks⟩ :=
      exists_classBlocks_classLines depth hname (hs _ (mem_walk_self _)) rest
    obtain ⟨inner, hinner, hmembers⟩ := classBlocks_memberLines accessors (memberScope name hasLookup) (depth + 1) behind
      (separator_memberScope name hasLookup) hs.accessors
    refine ⟨b :: inner, ?_, .cons hb hmembers⟩
    rw [hblocks, hinner, hbehind, List.cons_append]

theorem classBlocks_memberLines : ∀ (accessors : List Accessor) (scope : Scope) (depth : Nat) (rest : List Line),
    scope.separator = "" → (∀ accessor ∈ accessors, accessor.Each Accessor.IsWellNamed) →
    ∃ blocks, classBlocks (memberLines depth (planMembers scope accessors) ++ rest) = blocks ++ classBlocks rest ∧
      List.Forall₂ Class.HasBlock (walkMembers (planMembers scope accessors)) blocks
  | [], _, _, _, _, _ => ⟨[], rfl, .nil⟩
  | ⟨identifier, key, address, access⟩ :: accessors, scope, depth, rest, hscope, haccessors => by
    obtain ⟨haccessor, hbehind⟩ := List.forall_mem_cons.mp haccessors
    obtain ⟨name, named, hclaim, hwell, -, hnamed⟩ := exists_claim hscope haccessor.self
    obtain ⟨blocks, hrest, hmembers⟩ := classBlocks_memberLines accessors (planGives name named access).2 depth rest
      ((separator_planGives name named access).trans hnamed) hbehind
    rw [memberLines_cons depth _ accessors hclaim, planMembers_cons _ accessors hclaim, walkMembers,
      List.append_assoc, List.append_assoc, classBlocks_append (declareNone_commentLines depth _)]
    cases access with
    | scalar kind =>
      refine ⟨blocks, ?_, hmembers⟩
      rw [classBlocks_append (declareNone_leaf depth (verbatim name) name named address rfl), hrest]
    | list =>
      refine ⟨blocks, ?_, hmembers⟩
      rw [classBlocks_append (declareNone_leaf depth (verbatim name) name named address rfl), hrest]
    | nested child =>
      obtain ⟨type, typed, htype, hwellType, -, -⟩ := exists_claim hnamed (isWellFormed_settings hwell)
      have hverbatim : verbatim type = type := by
        have hclaim := verbatim_claim named name
        rwa [htype] at hclaim
      have hproperty : DeclareNone [⟨depth, objectProperty (verbatim name) type⟩, blank] :=
        declareNone_objectProperty depth (verbatim name) (isWord_of_isWellFormed hwellType) hverbatim
      obtain ⟨inner, hinner, hclasses⟩ :=
        classBlocks_classLines child type depth
          (memberLines depth (planMembers (planGives name named (.nested child)).2 accessors) ++ rest)
          (haccessor.nested child rfl) hwellType
      refine ⟨inner ++ blocks, ?_, ?_⟩
      · rw [propertyLines_nested depth _ child htype, List.append_assoc, classBlocks_append hproperty, hinner, hrest,
          List.append_assoc]
      · rw [planGives, htype] at hmembers ⊢
        exact List.rel_append hclasses hmembers

end

/-! ## The text of a document -/

theorem allStandAt_openingLines (options : Options) : AllStandAt 0 (openingLines options) :=
  .cons (beginsFlush_ofList (by decide)) le_rfl <|
    .cons (((beginsFlush_ofList (by decide)).append _).append _) le_rfl <|
    .cons (beginsFlush_ofList (by decide)) le_rfl <| .cons (beginsFlush_ofList (by decide)) le_rfl <|
    .cons (beginsFlush_ofList (by decide)) le_rfl <| .cons (beginsFlush_ofList (by decide)) le_rfl <|
    .cons (beginsFlush_ofList (by decide)) le_rfl <| .cons_blank <|
    .cons (((beginsFlush_ofList (by decide)).append _).append _) le_rfl <| .cons_blank allStandAt_nil

/-- Where no line has a character inside that ends one, the lines that are read are those that are written. -/
theorem readLines_source (options : Options) {root : Section} {kind : Char → Bool} (hfeed : kind '\n' = true)
    (hblank : kind ' ' = false) (hlines : AllLack kind (writtenLines options root)) :
    readLines kind (source options root) = writtenLines options root ++ [blank] :=
  readLines_renderLines hfeed hblank hlines
    ((allStandAt_openingLines options).append (allStandAt_classLines (Class.plan options root) 0))

/-- The lines that are written have the blocks of the classes that are planned. -/
theorem hasBlock_writtenLines (options : Options) {root : Section} (hroot : root.HasWellFormedNames) :
    List.Forall₂ Class.HasBlock (Class.plan options root).walk (classBlocks (writtenLines options root ++ [blank])) := by
  have hwritten : writtenLines options root ++ [blank] =
      openingLines options ++ (classLines 0 (planClass (Identifier.ofKey options.rootType).text root) ++ [blank]) :=
    List.append_assoc _ _ _
  have hlast : classBlocks [blank] = [] := classBlocks_append (DeclareNone.cons declaresClass_blank declareNone_nil) []
  obtain ⟨blocks, hblocks, hclasses⟩ := classBlocks_classLines root (Identifier.ofKey options.rootType).text 0 [blank]
    hroot (Identifier.isWellFormed_ofKey options.rootType)
  rw [hwritten, classBlocks_append (declareNone_openingLines options), hblocks, hlast, List.append_nil]
  exact hclasses

/-- Between line feeds stand the lines that are written, whatever the keys are. -/
theorem readLines_source_lineFeed (options : Options) {root : Section} (hroot : root.HasWellFormedNames) :
    readLines isLineFeed (source options root) = writtenLines options root ++ [blank] := by
  have hfeed : ∀ c, isLineFeed c = true → isHardEnd c = true := fun c hc => by
    rw [eq_of_beq hc]
    decide
  have hhard : AllLack isHardEnd (writtenLines options root) :=
    (allLack_writtenLines_iff (fun _ => endsLine_of_isHardEnd) options hroot).mpr
      fun _ _ accessor _ _ => lacks_isHardEnd_summaryText accessor.address.text
  exact readLines_source options (by decide) (by decide) (hhard.mono hfeed)

/-- **The text of a document reads back to the classes that are planned for it**, whatever its keys are. -/
theorem readClasses_source (options : Options) {root : Section} (hroot : root.HasWellFormedNames) :
    readClasses (readLines isLineFeed (source options root)) = (Class.plan options root).walk.map Class.shown := by
  have hread := (hasBlock_writtenLines options hroot).imp fun _ _ h => h.read.symm
  rw [readLines_source_lineFeed options hroot, readClasses_eq_map, eq_comm, ← List.forall₂_eq_eq_eq,
    List.forall₂_map_left_iff, List.forall₂_map_right_iff]
  exact hread

/-- The language reads the same lines where no comment has a separator of lines. -/
theorem readLines_endsLine (options : Options) {root : Section} (hroot : root.HasWellFormedNames)
    (hcomments : root.Each HasOneLineComment) :
    readLines endsLine (source options root) = readLines isLineFeed (source options root) := by
  rw [readLines_source_lineFeed options hroot]
  exact readLines_source options (by decide) (by decide)
    (keepsLines_renderLines_iff.mp ((keepsLines_source_iff options hroot).mpr hcomments))

end TypedSettings.Classes
