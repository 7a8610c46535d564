import Mathlib.Data.List.Perm.Subperm
import TypedSettings.Proofs.Classes.Layout

/-!
# The classes that a text declares

A text is read as the language reads it, line by line (`textLines`), where each of five characters ends a line. A line
declares a class if its first two words are `public class`.

* `ShowsClass.forall₂_declares`: the lines of a class declare one class for every section, in the order of the sections;
* `ShowsClass.allLack_iff`: only in comments can a line have a character inside that ends one, and it is a separator;
* `source_isNested`: what this says about the text of a document;
* `source_separated`: a separator in a comment ends it, and what stands behind it is read as code.
-/

namespace TypedSettings.Classes

open Text

/-! ## Declarations -/

/-- The lines of a text as the language reads it. -/
def textLines (text : String) : List (List Char) := text.toList.splitOnP endsLine

/-- The words of a line, with blanks between them. -/
def lineWords (line : List Char) : List (List Char) := (line.splitOn ' ').filter fun word => !word.isEmpty

/-- A line declares a class: its first two words are `public class`. -/
def declaresClass (line : List Char) : Bool := (lineWords line).take 2 == ["public".toList, "class".toList]

/-- A line of a text declares the class of a section: it is the first of the lines that show the section. -/
def Declares (lines : List Line) (s : Section) (text : List Char) : Prop :=
  ∃ depth name line rest, text = line.indented ∧ ShowsClass depth name s (line :: rest) ∧ line :: rest <:+: lines

theorem lineWords_append_cons (cs ds : List Char) : lineWords (cs ++ ' ' :: ds) = lineWords cs ++ lineWords ds := by
  rw [lineWords, List.splitOn_append_cons_self, List.filter_append]
  rfl

/-- Indentation is no word. -/
theorem declaresClass_indented (line : Line) : declaresClass line.indented = declaresClass line.text.toList := by
  have hblanks : ∀ n : Nat, lineWords (List.replicate n ' ' ++ line.text.toList) = lineWords line.text.toList := by
    intro n
    induction n with
    | zero => rfl
    | succ n ih => exact (lineWords_append_cons [] _).trans ih
  unfold Line.indented
  split
  · rename_i hempty
    rw [String.isEmpty_iff.mp hempty]
    rfl
  · rw [declaresClass, hblanks]
    rfl

/-! ### Words -/

/-- A text is one word. -/
structure IsWord (s : String) : Prop where
  ne_nil : s.toList ≠ []
  not_mem : ' ' ∉ s.toList

theorem isWord_ofList {cs : List Char} (h : cs ≠ [] ∧ ' ' ∉ cs) : IsWord (String.ofList cs) := by
  constructor <;> rw [String.toList_ofList]
  · exact h.1
  · exact h.2

theorem isWord_of_isWellFormed {name : String} (h : Identifier.isWellFormed name = true) : IsWord name := by
  refine ⟨fun hnil => ?_, (isNameText_of_isWellFormed h).blank_not_mem⟩
  have hstart := (Identifier.isWellFormed_iff.mp h).1
  rw [hnil] at hstart
  cases hstart

theorem IsWord.append {s t : String} (hs : IsWord s) (ht : IsWord t) : IsWord (s ++ t) := by
  constructor <;> rw [String.toList_append]
  · exact List.append_ne_nil_of_left_ne_nil hs.ne_nil _
  · rw [List.mem_append, not_or]
    exact ⟨hs.not_mem, ht.not_mem⟩

theorem isWord_verbatim {name : String} (h : IsWord name) : IsWord (verbatim name) := by
  unfold verbatim
  split
  · exact (isWord_ofList (by decide)).append h
  · exact h

theorem lineWords_of_isWord {s : String} (h : IsWord s) : lineWords s.toList = [s.toList] := by
  rw [lineWords, List.splitOn_eq_singleton h.not_mem]
  exact List.filter_eq_self.mpr (by simpa using h.ne_nil)

theorem lineWords_append_blank {first : String} (hfirst : IsWord first) (rest : String) :
    lineWords (first ++ " " ++ rest).toList = first.toList :: lineWords rest.toList := by
  have htext : (first ++ " " ++ rest).toList = first.toList ++ ' ' :: rest.toList := by
    rw [String.append_assoc, String.toList_append, String.toList_append]
    rfl
  rw [htext, lineWords_append_cons, lineWords_of_isWord hfirst, List.singleton_append]

/-! ### Lines that declare no class -/

theorem declaresClass_ofList {depth : Nat} {cs : List Char} (h : declaresClass cs = false) :
    declaresClass (Line.indented ⟨depth, String.ofList cs⟩) = false := by
  rw [declaresClass_indented, String.toList_ofList]
  exact h

/-- A line whose first word is not `public` declares no class. -/
theorem declaresClass_of_first {depth : Nat} {first : String} (rest : String) (hfirst : IsWord first)
    (hne : first.toList ≠ "public".toList) : declaresClass (Line.indented ⟨depth, first ++ " " ++ rest⟩) = false := by
  rw [declaresClass_indented, declaresClass, lineWords_append_blank hfirst, List.take_succ_cons]
  exact beq_false_of_ne fun h => hne (List.cons.inj h).1

/-- A line whose first word is `public` declares a class if the second one is `class`. -/
theorem declaresClass_public {depth : Nat} {second : String} (rest : String) (hsecond : IsWord second) :
    declaresClass (Line.indented ⟨depth, "public " ++ second ++ " " ++ rest⟩) =
      (second.toList == "class".toList) := by
  have htext : "public " ++ second ++ " " ++ rest = "public" ++ " " ++ (second ++ " " ++ rest) := by
    rw [show "public " = "public" ++ " " from rfl]
    simp only [String.append_assoc]
  rw [declaresClass_indented, htext, declaresClass, lineWords_append_blank (isWord_ofList (by decide)),
    lineWords_append_blank hsecond]
  simp

theorem declaresClass_of_second {depth : Nat} {second : String} (rest : String) (hsecond : IsWord second)
    (hne : second.toList ≠ "class".toList) :
    declaresClass (Line.indented ⟨depth, "public " ++ second ++ " " ++ rest⟩) = false := by
  rw [declaresClass_public rest hsecond]
  exact beq_false_of_ne hne

/-- No line declares a class. -/
def DeclareNone (lines : List Line) : Prop := ∀ line ∈ lines, declaresClass line.indented = false

/-- Of lines, those that declare a class, as they stand in a text. -/
def declarations (lines : List Line) : List (List Char) := (lines.map Line.indented).filter declaresClass

theorem declarations_append (lines more : List Line) :
    declarations (lines ++ more) = declarations lines ++ declarations more := by
  rw [declarations, List.map_append, List.filter_append]
  rfl

theorem DeclareNone.declarations_eq_nil {lines : List Line} (h : DeclareNone lines) : declarations lines = [] := by
  refine List.filter_eq_nil_iff.mpr (List.forall_mem_map.mpr fun line hmem => ?_)
  rw [h line hmem]
  exact Bool.false_ne_true

theorem declareNone_nil : DeclareNone [] := fun _ h => by cases h

theorem DeclareNone.cons {line : Line} {lines : List Line} (hline : declaresClass line.indented = false)
    (h : DeclareNone lines) : DeclareNone (line :: lines) := List.forall_mem_cons.mpr ⟨hline, h⟩

theorem declaresClass_blank : declaresClass blank.indented = false := by rfl

theorem declareNone_constructorLines (depth : Nat) {name : String} (h : IsWord name) :
    DeclareNone (constructorLines depth name) := by
  have htext : "public " ++ name ++ "(IConfiguration configuration)" =
      "public " ++ (name ++ "(IConfiguration") ++ " " ++ "configuration)" := by
    rw [show "(IConfiguration configuration)" = "(IConfiguration" ++ " " ++ "configuration)" from rfl]
    simp only [String.append_assoc]
  have hne : (name ++ "(IConfiguration").toList ≠ "class".toList := by
    intro heq
    have hmem : '(' ∈ (name ++ "(IConfiguration").toList := by
      rw [String.toList_append]
      exact List.mem_append_right _ (by decide)
    rw [heq] at hmem
    revert hmem
    decide
  have hconstructor :
      declaresClass (Line.indented ⟨depth, "public " ++ name ++ "(IConfiguration configuration)"⟩) = false := by
    rw [htext]
    exact declaresClass_of_second _ (h.append (isWord_ofList (by decide))) hne
  exact .cons (declaresClass_ofList (by decide)) <| .cons declaresClass_blank <| .cons hconstructor <|
    .cons (declaresClass_ofList (by decide)) <| .cons (declaresClass_ofList (by decide)) <|
    .cons (declaresClass_ofList (by decide)) <| .cons declaresClass_blank declareNone_nil

theorem declareNone_commentLines (depth : Nat) (accessor : Accessor) : DeclareNone (commentLines depth accessor) := by
  unfold commentLines commentLine
  split
  · refine .cons ?_ declareNone_nil
    rw [show "/// <summary>Configuration key: \"" = "///" ++ " " ++ "<summary>Configuration key: \"" from rfl,
      String.append_assoc, String.append_assoc]
    exact declaresClass_of_first _ (isWord_ofList (by decide)) (by decide)
  · exact declareNone_nil

theorem declareNone_indexerLines (depth : Nat) (address : Address) : DeclareNone (indexerLines depth address) := by
  refine .cons declaresClass_blank <| .cons (declaresClass_ofList (by decide)) <| .cons ?_ declareNone_nil
  rw [show "public string this[string key] => " = "public " ++ "string" ++ " " ++ "this[string key] => " from rfl,
    String.append_assoc, String.append_assoc]
  exact declaresClass_of_second _ (isWord_ofList (by decide)) (by decide)

/-- The declaration of a leaf names its type, which is one word. -/
theorem Reads.declaration_eq {access : Access} {declaration before behind : String}
    (h : Reads access declaration before behind) :
    ∃ type, declaration = "public " ++ type ++ " " ∧ IsWord type ∧ type.toList ≠ "class".toList := by
  cases h with
  | string => exact ⟨"string", rfl, isWord_ofList (by decide), by decide⟩
  | integer => exact ⟨"int", rfl, isWord_ofList (by decide), by decide⟩
  | float => exact ⟨"double", rfl, isWord_ofList (by decide), by decide⟩
  | boolean => exact ⟨"bool", rfl, isWord_ofList (by decide), by decide⟩
  | list => exact ⟨"string[]", rfl, isWord_ofList (by decide), by decide⟩

theorem Reads.nested?_eq_none {access : Access} {declaration before behind : String}
    (h : Reads access declaration before behind) : access.nested? = none := by
  cases h <;> rfl

theorem Reads.declareNone_property {access : Access} {declaration before behind : String}
    (h : Reads access declaration before behind) (depth : Nat) (name key : String) :
    DeclareNone [⟨depth, declaration ++ name ++ before ++ key ++ behind⟩] := by
  obtain ⟨type, rfl, htype, hne⟩ := h.declaration_eq
  refine .cons ?_ declareNone_nil
  rw [String.append_assoc, String.append_assoc, String.append_assoc]
  exact declaresClass_of_second _ htype hne

/-- The property of a nested section declares no class, since the name of its type is no reserved word. -/
theorem declareNone_objectProperty (depth : Nat) (name : String) {type : String} (htype : IsWord type)
    (hverbatim : verbatim type = type) :
    DeclareNone [⟨depth, "public " ++ type ++ " " ++ name ++ " => new " ++ type ++ "(_configuration);"⟩, blank] := by
  have hne : type.toList ≠ "class".toList := by
    intro heq
    rw [String.toList_inj.mp heq] at hverbatim
    revert hverbatim
    decide
  refine .cons ?_ <| .cons declaresClass_blank declareNone_nil
  rw [String.append_assoc, String.append_assoc, String.append_assoc]
  exact declaresClass_of_second _ htype hne

/-! ### Lines that declare classes -/

theorem declaresClass_class (depth : Nat) (name : String) :
    declaresClass (Line.indented ⟨depth, "public class " ++ name⟩) = true := by
  rw [show "public class " = "public " ++ "class" ++ " " from rfl, declaresClass_public _ (isWord_ofList (by decide))]
  exact beq_self_eq_true _

theorem infix_framed (depth : Nat) (name : String) (s : Section) (members : List Line) :
    members <:+: framed depth name s members := by
  unfold framed
  rw [List.append_assoc, List.append_assoc]
  exact List.infix_append _ _ _

/-- Of the lines of a class, the first one and those among the members declare classes. -/
theorem declarations_framed (depth : Nat) {name : String} (hname : IsWord name) (s : Section) (members : List Line) :
    declarations (framed depth name s members) =
      Line.indented ⟨depth, "public class " ++ verbatim name⟩ :: declarations members := by
  have hclass : declarations [⟨depth, "public class " ++ verbatim name⟩, ⟨depth, "\x7b"⟩] =
      [Line.indented ⟨depth, "public class " ++ verbatim name⟩] := by
    rw [declarations, List.map_cons, List.filter_cons_of_pos (declaresClass_class depth _)]
    exact congrArg _ (DeclareNone.cons (declaresClass_ofList (by decide)) declareNone_nil).declarations_eq_nil
  have hconstructor := (declareNone_constructorLines (depth + 1) (isWord_verbatim hname)).declarations_eq_nil
  have hindexer : declarations (if s.hasLookup then indexerLines (depth + 1) s.address else []) = [] := by
    split
    · exact (declareNone_indexerLines (depth + 1) s.address).declarations_eq_nil
    · rfl
  have hbrace : declarations [⟨depth, "\x7d"⟩] = [] :=
    (DeclareNone.cons (declaresClass_ofList (by decide)) declareNone_nil).declarations_eq_nil
  have hlast : declarations (if depth = 0 then [] else [blank]) = [] := by
    split <;> rfl
  simp only [framed, declarations_append, hclass, hconstructor, hindexer, hbrace, hlast, List.append_nil,
    List.singleton_append]

mutual

/-- **The lines of a class declare one class for every section**, in the order of the sections. -/
theorem ShowsClass.forall₂_declares : ∀ {depth : Nat} {name : String} {s : Section} {lines all : List Line},
    ShowsClass depth name s lines → Identifier.isWellFormed name = true → lines <:+: all →
    List.Forall₂ (Declares all) s.walk (declarations lines)
  | depth, name, s, _, all, .intro hmembers hnodup hnames, hname, hinfix => by
    have hinner := hmembers.forall₂_declares hnames ((infix_framed depth name s _).trans hinfix)
    rw [declarations_framed depth (isWord_of_isWellFormed hname), walk_eq]
    exact .cons ⟨depth, name, _, _, rfl, .intro hmembers hnodup hnames, hinfix⟩ hinner

theorem ShowsMembers.forall₂_declares : ∀ {depth : Nat} {accessors : List Accessor} {names : List String}
    {lines all : List Line}, ShowsMembers depth accessors names lines →
    (∀ name ∈ names, Identifier.isWellFormed name = true) → lines <:+: all →
    List.Forall₂ (Declares all) (Section.walkAccessors accessors) (declarations lines)
  | _, _, _, _, _, .done, _, _ => .nil
  | depth, accessor :: _, name :: _, _, _, .reads hreads _ _ hrest, hnames, hinfix => by
    have hbehind := hrest.forall₂_declares (List.forall_mem_cons.mp hnames).2
      ((List.suffix_append _ _).isInfix.trans hinfix)
    rw [walkAccessors_cons, hreads.nested?_eq_none, declarations_append, declarations_append,
      (declareNone_commentLines depth accessor).declarations_eq_nil,
      (hreads.declareNone_property depth (verbatim name) _).declarations_eq_nil]
    exact hbehind
  | depth, accessor :: _, name :: type :: _, _, _, .makes hchild hverbatim hclass hrest, hnames, hinfix => by
    obtain ⟨-, htype, hnames⟩ := (List.forall_mem_cons.mp hnames).imp_right List.forall_mem_cons.mp
    have hbehind := hrest.forall₂_declares hnames ((List.suffix_append _ _).isInfix.trans hinfix)
    have hinner := hclass.forall₂_declares htype
      ((List.suffix_append _ _).isInfix.trans ((List.infix_append _ _ _).trans hinfix))
    have hproperty := declareNone_objectProperty depth (verbatim name) (isWord_of_isWellFormed htype) hverbatim
    rw [walkAccessors_cons, hchild, Option.elim_some, declarations_append, declarations_append, declarations_append,
      (declareNone_commentLines depth accessor).declarations_eq_nil, hproperty.declarations_eq_nil]
    exact List.rel_append hinner hbehind

end

/-! ## No line end inside a line -/

/-- The comment that shows the address of an accessor, if there is one, has no separator of lines or paragraphs. -/
def HasOneLineComment (accessor : Accessor) : Prop :=
  Key.isPlain accessor.key = false → Lacks isSeparator accessor.address.text

theorem not_isWordChar_of_endsLine {c : Char} (h : endsLine c = true) : isWordChar c = false ∧ c ≠ '_' := by
  simp only [endsLine, Bool.or_eq_true, beq_iff_eq] at h
  rw [← Char.ofNat_toNat c]
  rcases h with (((h | h) | h) | h) | h
  all_goals
    rw [h]
    decide

theorem lacks_of_isNameText {name : String} (h : IsNameText name) : Lacks endsLine name :=
  h.lacks fun _ => not_isWordChar_of_endsLine

/-- The mark of a reserved word is the only character that it adds to a name. -/
theorem lacks_verbatim_of_mark {kind : Char → Bool} (hmark : kind '@' = false) {name : String} (h : Lacks kind name) :
    Lacks kind (verbatim name) := by
  have hat : Lacks kind "@" := List.forall_mem_singleton.mpr hmark
  unfold verbatim
  split
  · exact hat.append h
  · exact h

theorem lacks_verbatim {name : String} (h : IsNameText name) : Lacks endsLine (verbatim name) :=
  lacks_verbatim_of_mark (by decide) (lacks_of_isNameText h)

theorem allLack_constructorLines (depth : Nat) {name : String} (h : Lacks endsLine name) :
    AllLack endsLine (constructorLines depth name) :=
  .cons (lacks_ofList (by decide)) <| .cons lacks_blank <|
    .cons (((lacks_ofList (by decide)).append h).append (lacks_ofList (by decide))) <|
    .cons (lacks_ofList (by decide)) <| .cons (lacks_ofList (by decide)) <| .cons (lacks_ofList (by decide)) <|
    .cons lacks_blank allLack_nil

/-- The comment that shows the address of an accessor, if there is one, lacks the characters of a kind. -/
def CommentLacks (kind : Char → Bool) (accessor : Accessor) : Prop :=
  Key.isPlain accessor.key = false → Lacks kind (summaryText accessor.address.text)

theorem commentLacks_endsLine_iff {accessor : Accessor} : CommentLacks endsLine accessor ↔ HasOneLineComment accessor :=
  imp_congr_right fun _ => lacks_summaryText_iff

theorem allLack_indexerLines (depth : Nat) (address : Address) : AllLack endsLine (indexerLines depth address) := by
  have hbody : Lacks endsLine (indexerBody address) := by
    unfold indexerBody
    split
    · exact lacks_ofList (by decide)
    · exact ((lacks_ofList (by decide)).append (lacks_literal address.stem)).append (lacks_ofList (by decide))
  exact .cons lacks_blank <| .cons (lacks_ofList (by decide)) <|
    .cons (((lacks_ofList (by decide)).append hbody).append (lacks_ofList (by decide))) allLack_nil

theorem Reads.allLack_property {access : Access} {declaration before behind name key : String}
    (h : Reads access declaration before behind) (depth : Nat) (hname : Lacks endsLine name)
    (hkey : Lacks endsLine key) : AllLack endsLine [⟨depth, declaration ++ name ++ before ++ key ++ behind⟩] := by
  have htexts : Lacks endsLine declaration ∧ Lacks endsLine before ∧ Lacks endsLine behind := by
    cases h <;> exact ⟨lacks_ofList (by decide), lacks_ofList (by decide), lacks_ofList (by decide)⟩
  obtain ⟨hdeclaration, hbefore, hbehind⟩ := htexts
  exact .cons ((((hdeclaration.append hname).append hbefore).append hkey).append hbehind) allLack_nil

theorem allLack_objectProperty (depth : Nat) {name type : String} (hname : Lacks endsLine name)
    (htype : Lacks endsLine type) : AllLack endsLine
      [⟨depth, "public " ++ type ++ " " ++ name ++ " => new " ++ type ++ "(_configuration);"⟩, blank] := by
  refine .cons ?_ <| .cons lacks_blank allLack_nil
  exact ((((((lacks_ofList (by decide)).append htype).append (lacks_ofList (by decide))).append hname).append
    (lacks_ofList (by decide))).append htype).append (lacks_ofList (by decide))

section Kinds

variable {kind : Char → Bool} (hkind : ∀ c, kind c = true → endsLine c = true)

include hkind

/-- Of the lines of a property, only the comment can have a character inside that ends one. -/
theorem allLack_commentLines_iff (depth : Nat) (accessor : Accessor) :
    AllLack kind (commentLines depth accessor) ↔ CommentLacks kind accessor := by
  unfold commentLines CommentLacks
  split
  · rename_i hcommented
    have hplain : Key.isPlain accessor.key = false := by simpa using hcommented
    have hfixed : Lacks kind "/// <summary>Configuration key: \"" ∧ Lacks kind "\"</summary>" :=
      ⟨(lacks_ofList (by decide)).mono hkind, (lacks_ofList (by decide)).mono hkind⟩
    constructor
    · intro h _ c hc
      refine h _ List.mem_cons_self c ?_
      rw [commentLine, String.toList_append, String.toList_append]
      exact List.mem_append_left _ (List.mem_append_right _ hc)
    · exact fun h => .cons ((hfixed.1.append (h hplain)).append hfixed.2) allLack_nil
  · rename_i hcommented
    have hplain : Key.isPlain accessor.key = true := by simpa using hcommented
    refine ⟨fun _ hnot => ?_, fun _ => allLack_nil⟩
    rw [hplain] at hnot
    cases hnot

/-- The lines around the members of a class have no character inside that ends one. -/
theorem allLack_framed_iff (depth : Nat) {name : String} (hname : IsNameText name) (s : Section) (members : List Line) :
    AllLack kind (framed depth name s members) ↔ AllLack kind members := by
  have hverbatim := lacks_verbatim hname
  have hclass : AllLack kind [⟨depth, "public class " ++ verbatim name⟩, ⟨depth, "\x7b"⟩] :=
    AllLack.mono hkind <| .cons ((lacks_ofList (by decide)).append hverbatim) <|
      .cons (lacks_ofList (by decide)) allLack_nil
  have hconstructor : AllLack kind (constructorLines (depth + 1) (verbatim name)) :=
    (allLack_constructorLines (depth + 1) hverbatim).mono hkind
  have hindexer : AllLack kind (if s.hasLookup then indexerLines (depth + 1) s.address else []) := by
    split
    · exact (allLack_indexerLines (depth + 1) s.address).mono hkind
    · exact allLack_nil
  have hbrace : AllLack kind [⟨depth, "\x7d"⟩] := AllLack.mono hkind (.cons (lacks_ofList (by decide)) allLack_nil)
  have hlast : AllLack kind (if depth = 0 then [] else [blank]) := by
    split
    · exact allLack_nil
    · exact .cons lacks_blank allLack_nil
  unfold framed
  constructor
  · intro h
    obtain ⟨h, -⟩ := allLack_append.mp h
    obtain ⟨h, -⟩ := allLack_append.mp h
    obtain ⟨h, -⟩ := allLack_append.mp h
    exact (allLack_append.mp h).2
  · exact fun h => ((((hclass.append hconstructor).append h).append hindexer).append hbrace).append hlast

end Kinds

section Kinds

variable {kind : Char → Bool}

mutual

/-- **In the lines of a class only comments can have a character inside that ends a line.** -/
theorem ShowsClass.allLack_iff (hkind : ∀ c, kind c = true → endsLine c = true) : ∀ {depth : Nat} {name : String}
    {s : Section} {lines : List Line}, ShowsClass depth name s lines → Identifier.isWellFormed name = true →
    (AllLack kind lines ↔ s.Each (CommentLacks kind))
  | depth, _, s, _, .intro hmembers _ hnames, hname => by
    rw [allLack_framed_iff hkind depth (isNameText_of_isWellFormed hname), Section.each_iff]
    exact hmembers.allLack_iff hkind hnames

theorem ShowsMembers.allLack_iff (hkind : ∀ c, kind c = true → endsLine c = true) : ∀ {depth : Nat}
    {accessors : List Accessor} {names : List String} {lines : List Line}, ShowsMembers depth accessors names lines →
    (∀ name ∈ names, Identifier.isWellFormed name = true) →
    (AllLack kind lines ↔ ∀ accessor ∈ accessors, accessor.Each (CommentLacks kind))
  | _, _, _, _, .done, _ => ⟨fun _ => List.forall_mem_nil _, fun _ => allLack_nil⟩
  | depth, accessor :: _, name :: _, _, .reads hreads _ hkey hrest, hnames => by
    obtain ⟨hname, hnames⟩ := List.forall_mem_cons.mp hnames
    have hverbatim := lacks_verbatim (isNameText_of_isWellFormed hname)
    have hproperty := (hreads.allLack_property depth hverbatim hkey).mono hkind
    have hself : accessor.Each (CommentLacks kind) ↔ CommentLacks kind accessor :=
      ⟨fun h => h.self, fun h => ⟨h, fun child hchild => by rw [hreads.nested?_eq_none] at hchild; cases hchild⟩⟩
    rw [allLack_append, allLack_append, allLack_commentLines_iff hkind, hrest.allLack_iff hkind hnames,
      List.forall_mem_cons, hself, and_iff_left hproperty]
  | depth, accessor :: _, name :: type :: _, _, @ShowsMembers.makes _ _ child _ _ _ _ _ _ hchild _ hclass hrest,
      hnames => by
    obtain ⟨hname, htype, hnames⟩ := (List.forall_mem_cons.mp hnames).imp_right List.forall_mem_cons.mp
    have hproperty := (allLack_objectProperty depth (lacks_verbatim (isNameText_of_isWellFormed hname))
      (lacks_of_isNameText (isNameText_of_isWellFormed htype))).mono hkind
    have hself : accessor.Each (CommentLacks kind) ↔ CommentLacks kind accessor ∧ child.Each (CommentLacks kind) := by
      refine ⟨fun h => ⟨h.self, h.nested child hchild⟩, fun h => ⟨h.1, fun other hother => ?_⟩⟩
      rw [hchild] at hother
      exact Option.some.inj hother ▸ h.2
    rw [allLack_append, allLack_append, allLack_append, allLack_commentLines_iff hkind, hclass.allLack_iff hkind htype,
      hrest.allLack_iff hkind hnames, List.forall_mem_cons, hself, and_iff_right hproperty]

end

end Kinds

/-- **No line of a class has a character inside that ends a line**, where the comments have no separator. -/
theorem ShowsClass.allLack {depth : Nat} {name : String} {s : Section} {lines : List Line}
    (h : ShowsClass depth name s lines) (hname : Identifier.isWellFormed name = true) (hs : s.Each HasOneLineComment) :
    AllLack endsLine lines :=
  (h.allLack_iff (fun _ hc => hc) hname).mpr (hs.mono fun _ => commentLacks_endsLine_iff.mpr)

/-! ## The text of a document -/

/-- The lines in front of the classes. -/
def openingLines (options : Options) : List Line :=
  headerLines ++ [namespaceLine (namespaceName options.enclosing), blank]

theorem declareNone_openingLines (options : Options) : DeclareNone (openingLines options) := by
  have hspace : declaresClass (namespaceLine (namespaceName options.enclosing)).indented = false := by
    rw [namespaceLine, show "namespace " = "namespace" ++ " " from rfl, String.append_assoc]
    exact declaresClass_of_first _ (isWord_ofList (by decide)) (by decide)
  have hgenerator :
      declaresClass (Line.indented ⟨0, "//     Generated by " ++ generatorName ++ ". Do not edit."⟩) = false := by
    rw [show "//     Generated by " = "//" ++ " " ++ "    Generated by " from rfl, String.append_assoc,
      String.append_assoc]
    exact declaresClass_of_first _ (isWord_ofList (by decide)) (by decide)
  exact .cons (declaresClass_ofList (by decide)) <| .cons hgenerator <| .cons (declaresClass_ofList (by decide)) <|
    .cons (declaresClass_ofList (by decide)) <| .cons (declaresClass_ofList (by decide)) <|
    .cons (declaresClass_ofList (by decide)) <| .cons (declaresClass_ofList (by decide)) <|
    .cons declaresClass_blank <| .cons hspace <| .cons declaresClass_blank declareNone_nil

theorem lacks_namespaceName (wanted : String) : Lacks endsLine (namespaceName wanted) := by
  unfold namespaceName
  split
  · exact lacks_ofList (by decide)
  · refine lacks_intercalate (lacks_ofList (by decide)) (List.forall_mem_map.mpr fun part _ => ?_)
    exact lacks_verbatim (isNameText_ofKey _)

theorem allLack_openingLines (options : Options) : AllLack endsLine (openingLines options) := by
  have hspace : Lacks endsLine (namespaceLine (namespaceName options.enclosing)).text :=
    ((lacks_ofList (by decide)).append (lacks_namespaceName options.enclosing)).append (lacks_ofList (by decide))
  have hgenerator : Lacks endsLine ("//     Generated by " ++ generatorName ++ ". Do not edit.") :=
    ((lacks_ofList (by decide)).append (lacks_ofList (by decide))).append (lacks_ofList (by decide))
  exact .cons (lacks_ofList (by decide)) <| .cons hgenerator <| .cons (lacks_ofList (by decide)) <|
    .cons (lacks_ofList (by decide)) <| .cons (lacks_ofList (by decide)) <| .cons (lacks_ofList (by decide)) <|
    .cons (lacks_ofList (by decide)) <| .cons lacks_blank <| .cons hspace <| .cons lacks_blank allLack_nil

/-- Where no line has a character inside that ends one, the lines of the text are those that were written. -/
theorem filter_textLines {lines : List Line} (h : AllLack endsLine lines) :
    (textLines (renderLines lines)).filter declaresClass = declarations lines := by
  rw [textLines, splitOnP_renderLines (by decide) (by decide) h, List.filter_append, declarations]
  exact List.append_nil _

theorem mem_textLines {lines : List Line} {line : Line} {text : List Char} (hmem : line ∈ lines)
    (htext : text ∈ line.indented.splitOnP endsLine) : text ∈ textLines (renderLines lines) := by
  rw [textLines, splitOnP_renderLines_eq_flatMap (by decide)]
  exact List.mem_append_left _ (List.mem_flatMap.mpr ⟨line, hmem, htext⟩)

/-- **The text has one class for every section**, each inside that of the section around it, with the properties of the
accessors. Where the comments have no separator, it declares these classes in the order of the sections, and no
others. -/
theorem source_isNested (options : Options) {root : Section} (hroot : root.HasWellFormedNames) :
    ∃ lines, ShowsClass 0 (Identifier.ofKey options.rootType).text root lines ∧
      source options root = renderLines (openingLines options ++ lines) ∧
      (root.Each HasOneLineComment →
        List.Forall₂ (Declares lines) root.walk ((textLines (source options root)).filter declaresClass)) := by
  have hname := Identifier.isWellFormed_ofKey options.rootType
  have hshows := showsClass root (Identifier.ofKey options.rootType).text 0 hroot
  have htext : source options root = renderLines
      (openingLines options ++ classLines 0 (planClass (Identifier.ofKey options.rootType).text root)) := rfl
  refine ⟨_, hshows, htext, fun hcomments => ?_⟩
  rw [htext, filter_textLines ((allLack_openingLines options).append (hshows.allLack hname hcomments)),
    declarations_append, (declareNone_openingLines options).declarations_eq_nil, List.nil_append]
  exact hshows.forall₂_declares hname (List.infix_refl _)

theorem hasOneLineComment_hostile : Section.hostile.Each HasOneLineComment := by
  unfold Section.Each HasOneLineComment
  decide

theorem source_isNested_hostile : Section.hostile.HasWellFormedNames ∧ Section.hostile.Each HasOneLineComment ∧
    ∃ lines, ShowsClass 0 (Identifier.ofKey ({} : Options).rootType).text Section.hostile lines ∧
      ((textLines (source {} Section.hostile)).filter declaresClass).length = 2 := by
  obtain ⟨lines, hshows, -, hdeclares⟩ := source_isNested {} Section.hasWellFormedNames_hostile
  have hlength := (hdeclares hasOneLineComment_hostile).length_eq
  rw [show Section.hostile.walk.length = 2 from rfl] at hlength
  exact ⟨Section.hasWellFormedNames_hostile, hasOneLineComment_hostile, lines, hshows, hlength.symm⟩

/-- A document with one key, which begins with a separator of lines. -/
def separated : Section :=
  ⟨.root, 0,
    [ ⟨⟨"publicClassOther"⟩, "\u2028public class Other \x7b \x7d //", ⟨["\u2028public class Other \x7b \x7d //"]⟩,
        .scalar .boolean⟩ ],
    true⟩

/-- **A separator in a comment ends it, and what stands behind it is read as code**: a document without nested objects
gets two classes. -/
theorem source_separated : separated.HasWellFormedNames ∧ separated.walk.length = 1 ∧
    1 < ((textLines (source {} separated)).filter declaresClass).length := by
  have hnames : separated.HasWellFormedNames := by
    unfold Section.HasWellFormedNames Section.Each Accessor.IsWellNamed
    decide
  obtain ⟨members, hcomment, htext⟩ : ∃ members, commentLine 1 ⟨["\u2028public class Other \x7b \x7d //"]⟩ ∈ members ∧
      source {} separated = renderLines (openingLines {} ++ framed 0 "AppSettings" separated members) :=
    ⟨[ commentLine 1 ⟨["\u2028public class Other \x7b \x7d //"]⟩,
        ⟨1, scalarProperty "publicClassOther" (literal "\u2028public class Other \x7b \x7d //") .boolean⟩ ],
      List.mem_cons_self, rfl⟩
  have hdeclared : ["public class AppSettings".toList, "public class Other \x7b \x7d //\"</summary>".toList] ⊆
      (textLines (source {} separated)).filter declaresClass := by
    rw [htext]
    refine List.cons_subset.mpr ⟨?_, List.cons_subset.mpr ⟨?_, List.nil_subset _⟩⟩
    · refine List.mem_filter.mpr ⟨mem_textLines (List.mem_append_right _ List.mem_cons_self) ?_, by decide⟩
      decide
    · have hmem := (infix_framed 0 "AppSettings" separated members).mem hcomment
      refine List.mem_filter.mpr ⟨mem_textLines (List.mem_append_right _ hmem) ?_, by decide⟩
      decide
  exact ⟨hnames, rfl, (List.subperm_of_subset (by decide) hdeclared).length_le⟩

end TypedSettings.Classes
