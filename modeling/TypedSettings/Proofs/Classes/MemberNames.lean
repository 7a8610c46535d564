import TypedSettings.Proofs.Classes.Reading

/-!
# The names of members

The block of a class is read for the names that it declares, as they are written (`ClassBlock.declarations`). Properties
and the classes among them get their names in turn from one scope, in which the name of the class is in use from the
start, and that of the indexer where there is one.

* `planMembers_grows`: the names of members are given out once each, and are identifiers;
* `readAt_bodyLines`: the lines of a class declare what is planned for it;
* `source_declaresMembers`: what the text of a document declares for each section;
* `readLines_boolean`, `source_disguised`: where a key ends the comment that shows it, the rest of the key is read as
  code.
-/

namespace TypedSettings.Classes

open Text

/-! ## Declarations -/

/-- What a line declares in a class, by the name that is written: its constructor, a property, a class inside, or the
indexer, which has no name. -/
inductive Declaration where
  | maker (name : String)
  | property (name : String)
  | type (name : String)
  | indexer
  deriving DecidableEq, Repr

/-- Reads a line by its first three words. A line that begins with `public` declares a class if the second word says so,
the constructor if this goes on behind a name with its parameters, the indexer if those stand in the third word, and
else a property. -/
def declaration? (line : Line) : Option Declaration :=
  match (splitWords 3 line.text.toList).1 with
  | [access, second, third] =>
    if access ≠ "public".toList then none
    else if second = "class".toList then some (.type (String.ofList third))
    else if '(' ∈ second then some (.maker (String.ofList (second.takeWhile (· != '('))))
    else if "this[".toList.isPrefixOf third then some .indexer
    else some (.property (String.ofList third))
  | _ => none

/-- What the block of a class declares at the depth of its members. -/
def ClassBlock.declarations (b : ClassBlock) : List Declaration := readAt declaration? (b.depth + 1) b.lines

/-- The name that a declaration gives to a member. -/
def Declaration.memberName? : Declaration → Option String
  | .property name => some name
  | .type name => some name
  | .maker _ => none
  | .indexer => none

/-- What is declared for an accessor: a property, and behind that of a nested section a class. -/
inductive DeclaresAccessor (accessor : Accessor) : List Declaration → Prop
  | leaf {name : String} : accessor.access.nested? = none → DeclaresAccessor accessor [.property name]
  | nested {child : Section} {name type : String} : accessor.access.nested? = some child →
      DeclaresAccessor accessor [.property name, .type type]

/-- A name is written as it is unless it is a reserved word, or with an at sign in front of it. -/
def IsWritten (name written : String) : Prop :=
  Identifier.isWellFormed name = true ∧ (written = name ∧ name ∉ reservedWords ∨ written = "@" ++ name)

/-- What the block of a class declares for a section: a constructor of the name of the class, the members of the
accessors, and the indexer where there is a lookup. The names of the class and of its members are identifiers, and all
are different; none of a member is that of the indexer, where there is one, or that of the field. -/
structure DeclaresMembers (s : Section) (b : ClassBlock) : Prop where
  members : ∃ groups, List.Forall₂ DeclaresAccessor s.accessors groups ∧
    b.declarations = .maker b.name :: groups.flatten ++ if s.hasLookup then [.indexer] else []
  names : ∃ name names, IsWritten name b.name ∧
    List.Forall₂ IsWritten names (b.declarations.filterMap Declaration.memberName?) ∧ (name :: names).Nodup ∧
    (s.hasLookup = true → "Item" ∉ names) ∧ "_configuration" ∉ names

/-! ## The names of planned members -/

/-- The class whose objects a property makes. -/
def Gives.class? : Gives → Option Class
  | .object type => some type
  | .scalar _ => none
  | .list => none

/-- The names of a member: that of the property, and that of its class if it has one. -/
def Member.names (member : Member) : List String := member.name :: (member.gives.class?.map Class.name).toList

/-- What a member declares. -/
def Member.declared (member : Member) : List Declaration :=
  .property (verbatim member.name) :: (member.gives.class?.map fun type => .type (verbatim type.name)).toList

/-- What a class declares. -/
def Class.declared (c : Class) : List Declaration :=
  .maker (verbatim c.name) :: c.members.flatMap Member.declared ++ if c.hasIndexer then [.indexer] else []

/-- **The names of members are given out once each**, properties and classes alike, and are identifiers. -/
theorem planMembers_grows : ∀ (accessors : List Accessor) {scope : Scope}, scope.separator = "" →
    (∀ accessor ∈ accessors, accessor.IsWellNamed) →
    ∃ scope', scope.Grows ((planMembers scope accessors).flatMap Member.names) scope' ∧
      ∀ name ∈ (planMembers scope accessors).flatMap Member.names, Identifier.isWellFormed name = true
  | [], scope, _, _ => ⟨scope, .refl scope, List.forall_mem_nil _⟩
  | ⟨identifier, key, address, access⟩ :: accessors, scope, hscope, haccessors => by
    obtain ⟨haccessor, hrest⟩ := List.forall_mem_cons.mp haccessors
    obtain ⟨name, named, hclaim, hwell, hgrows, hnamed⟩ := exists_claim hscope haccessor
    obtain ⟨scope', hgrows', hwell'⟩ := planMembers_grows accessors
      ((separator_planGives name named access).trans hnamed) hrest
    rw [planMembers_cons _ accessors hclaim, List.flatMap_cons]
    cases access with
    | scalar kind => exact ⟨scope', hgrows.trans hgrows', List.forall_mem_cons.mpr ⟨hwell, hwell'⟩⟩
    | list => exact ⟨scope', hgrows.trans hgrows', List.forall_mem_cons.mpr ⟨hwell, hwell'⟩⟩
    | nested child =>
      -- the class gets its name behind that of its property, in the same scope
      obtain ⟨type, typed, htype, hwellType, hgrowsType, -⟩ := exists_claim hnamed (isWellFormed_settings hwell)
      have hgives : planGives name named (.nested child) = (.object (planClass type child), typed) := by
        rw [planGives, htype]
      have hnames : Member.names ⟨name, address, !Key.isPlain key, .object (planClass type child)⟩ = [name, type] := by
        rw [Member.names, Gives.class?, Option.map_some, name_planClass, Option.toList_some]
      rw [hgives] at hgrows' hwell' ⊢
      rw [hnames]
      exact ⟨scope', hgrows.trans (hgrowsType.trans hgrows'),
        List.forall_mem_cons.mpr ⟨hwell, List.forall_mem_cons.mpr ⟨hwellType, hwell'⟩⟩⟩

/-! ## Lines that declare something -/

/-- A line whose first word is not `public` declares nothing. -/
theorem declaration?_of_first {first : String} (hfirst : ' ' ∉ first.toList) (hne : first.toList ≠ "public".toList)
    (depth : Nat) (rest : String) : declaration? ⟨depth, first ++ " " ++ rest⟩ = none := by
  have htext : (first ++ " " ++ rest).toList = first.toList ++ ' ' :: rest.toList := by
    simp only [String.toList_append, List.append_assoc]
    rfl
  rw [declaration?, htext, splitWords_append hfirst]
  exact if_pos hne

theorem declaration?_ofList {depth : Nat} {cs : List Char} (h : declaration? ⟨0, String.ofList cs⟩ = none) :
    declaration? ⟨depth, String.ofList cs⟩ = none := h

theorem declaration?_blank : declaration? blank = none := by decide

/-- The line that declares a class. -/
theorem declaration?_class (depth : Nat) {name : String} (h : IsNameText name) :
    declaration? ⟨depth, "public class " ++ verbatim name⟩ = some (.type (verbatim name)) := by
  have htext : ("public class " ++ verbatim name).toList =
      "public".toList ++ ' ' :: ("class".toList ++ ' ' :: (verbatim name).toList) := String.toList_append
  rw [declaration?, htext, splitWords_append (by decide), splitWords_append (by decide),
    splitWords_word (blank_not_mem_verbatim h)]
  simp [splitWords]

/-- The line of the constructor declares it under the name of the class. -/
theorem declaration?_constructor (depth : Nat) {name : String} (h : IsNameText name) :
    declaration? ⟨depth, "public " ++ verbatim name ++ "(IConfiguration configuration)"⟩ =
      some (.maker (verbatim name)) := by
  have htext : ("public " ++ verbatim name ++ "(IConfiguration configuration)").toList = "public".toList ++ ' ' ::
      ((verbatim name).toList ++ "(IConfiguration".toList ++ ' ' :: "configuration)".toList) := by
    simp only [String.toList_append, List.append_assoc]
    rfl
  have hbracket : '(' ∈ (verbatim name).toList ++ "(IConfiguration".toList := List.mem_append_right _ (by decide)
  have hblank : ' ' ∉ (verbatim name).toList ++ "(IConfiguration".toList := by
    rw [List.mem_append, not_or]
    exact ⟨blank_not_mem_verbatim h, by decide⟩
  have hclass : (verbatim name).toList ++ "(IConfiguration".toList ≠ "class".toList := by
    intro heq
    rw [heq] at hbracket
    revert hbracket
    decide
  have hopen : ∀ c ∈ (verbatim name).toList, (c != '(') = true := fun c hc =>
    bne_iff_ne.mpr fun he => not_mem_verbatim h (by decide) (by decide) (he ▸ hc)
  have hname : ((verbatim name).toList ++ "(IConfiguration".toList).takeWhile (· != '(') = (verbatim name).toList := by
    rw [List.takeWhile_append_of_pos hopen]
    exact List.append_nil _
  rw [declaration?, htext, splitWords_append (by decide), splitWords_append hblank, splitWords_word (by decide)]
  simp only [splitWords, ne_eq, not_true, if_false, if_neg hclass, if_pos hbracket, hname, String.ofList_toList]

/-- The line of a property declares it, unless the type is written like a class or a constructor. -/
theorem declaration?_propertyText {type name : String} (htype : ' ' ∉ type.toList)
    (hclass : type.toList ≠ "class".toList) (hbracket : '(' ∉ type.toList) (hname : IsNameText name) (depth : Nat)
    (value : String) :
    declaration? ⟨depth, propertyText type (verbatim name) value⟩ = some (.property (verbatim name)) := by
  have hindexer : ¬"this[".toList.isPrefixOf (verbatim name).toList = true := by
    intro hprefix
    have hmem := (List.isPrefixOf_iff_prefix.mp hprefix).subset (show '[' ∈ "this[".toList by decide)
    exact not_mem_verbatim hname (by decide) (by decide) hmem
  rw [declaration?, toList_propertyText, splitWords_append (by decide), splitWords_append htype,
    splitWords_append (blank_not_mem_verbatim hname)]
  simp only [splitWords, ne_eq, not_true, if_false, if_neg hclass, if_neg hbracket, if_neg hindexer,
    String.ofList_toList]

/-! ### Lines that declare nothing -/

/-- No line declares anything. -/
def Silent (lines : List Line) : Prop := ∀ line ∈ lines, declaration? line = none

theorem silent_nil : Silent [] := List.forall_mem_nil _

theorem Silent.cons {line : Line} {lines : List Line} (hline : declaration? line = none) (h : Silent lines) :
    Silent (line :: lines) := List.forall_mem_cons.mpr ⟨hline, h⟩

theorem Silent.readAt_eq_nil {lines : List Line} (h : Silent lines) (depth : Nat) :
    readAt declaration? depth lines = [] := Text.readAt_eq_nil fun line hmem _ => h line hmem

/-- Of the field and the constructor, only the constructor is declared. -/
theorem readAt_constructorLines (depth : Nat) {name : String} (h : IsNameText name) :
    readAt declaration? depth (constructorLines depth (verbatim name)) = [.maker (verbatim name)] := by
  have hlines : constructorLines depth (verbatim name) =
      [⟨depth, "private readonly IConfiguration _configuration;"⟩, blank] ++
        [⟨depth, "public " ++ verbatim name ++ "(IConfiguration configuration)"⟩] ++
        [⟨depth, "\x7b"⟩, ⟨depth + 1, "_configuration = configuration;"⟩, ⟨depth, "\x7d"⟩, blank] := rfl
  have hfront : Silent [⟨depth, "private readonly IConfiguration _configuration;"⟩, blank] :=
    .cons (declaration?_ofList (by decide)) <| .cons declaration?_blank silent_nil
  have hbehind : Silent [⟨depth, "\x7b"⟩, ⟨depth + 1, "_configuration = configuration;"⟩, ⟨depth, "\x7d"⟩, blank] :=
    .cons (declaration?_ofList (by decide)) <| .cons (declaration?_ofList (by decide)) <|
      .cons (declaration?_ofList (by decide)) <| .cons declaration?_blank silent_nil
  rw [hlines, readAt_append, readAt_append, hfront.readAt_eq_nil, hbehind.readAt_eq_nil,
    readAt_singleton rfl (declaration?_constructor depth h)]
  rfl

theorem readAt_commentLine (depth : Nat) (accessor : Accessor) :
    readAt declaration? depth (commentLines depth accessor) = [] := by
  refine readAt_eq_nil fun line hmem _ => ?_
  unfold commentLines at hmem
  split at hmem
  · rw [List.mem_singleton.mp hmem, commentLine,
      show "/// <summary>Configuration key: \"" = "///" ++ " " ++ "<summary>Configuration key: \"" from rfl,
      String.append_assoc, String.append_assoc]
    exact declaration?_of_first (by decide) (by decide) depth _
  · cases hmem

/-- An indexer declares itself. -/
theorem readAt_indexer (depth : Nat) (address : Address) :
    readAt declaration? depth (indexerLines depth address) = [.indexer] := by
  have hlines : indexerLines depth address = (indexerLines depth address).take 2 ++
      [⟨depth, "public string this[string key] => " ++ indexerBody address ++ " ?? string.Empty;"⟩] := rfl
  have hfront : Silent ((indexerLines depth address).take 2) :=
    .cons declaration?_blank <| .cons (declaration?_ofList (by decide)) silent_nil
  have htext : ("public string this[string key] => " ++ indexerBody address ++ " ?? string.Empty;").toList =
      "public".toList ++ ' ' :: ("string".toList ++ ' ' :: ("this[string".toList ++ ' ' ::
        ("key] => " ++ indexerBody address ++ " ?? string.Empty;").toList)) := by
    simp only [String.toList_append, List.append_assoc]
    rfl
  have hindexer : declaration?
      ⟨depth, "public string this[string key] => " ++ indexerBody address ++ " ?? string.Empty;"⟩ = some .indexer := by
    rw [declaration?, htext, splitWords_append (by decide), splitWords_append (by decide),
      splitWords_append (by decide), splitWords]
    rfl
  rw [hlines, readAt_append, hfront.readAt_eq_nil, readAt_singleton rfl hindexer, List.nil_append]

/-- A class inside declares itself only: its own members stand deeper. -/
theorem readAt_class (depth : Nat) {c : Class} (h : IsNameText c.name) :
    readAt declaration? depth (classLines depth c) = [.type (verbatim c.name)] := by
  have hlines : classLines depth c = [⟨depth, "public class " ++ verbatim c.name⟩] ++ [⟨depth, "\x7b"⟩] ++
      bodyLines (depth + 1) c ++ ⟨depth, "\x7d"⟩ :: if depth = 0 then [] else [blank] := classLines_eq depth c
  have hopening : Silent [⟨depth, "\x7b"⟩] := .cons (declaration?_ofList (by decide)) silent_nil
  have hclosing : Silent (⟨depth, "\x7d"⟩ :: if depth = 0 then [] else [blank]) := by
    refine .cons (declaration?_ofList (by decide)) ?_
    split
    · exact silent_nil
    · exact .cons declaration?_blank silent_nil
  rw [hlines, readAt_append, readAt_append, readAt_append, readAt_singleton rfl (declaration?_class depth h),
    hopening.readAt_eq_nil, (allStandAt_bodyLines c (depth + 1)).readAt_eq_nil declaration?_blank,
    hclosing.readAt_eq_nil]
  rfl

/-- No type of a leaf is written like a constructor. -/
theorem bracket_not_mem_type {access : Access} (hleaf : access.nested? = none) (property : String) (scope : Scope) :
    '(' ∉ (planGives property scope access).1.type.toList := by
  cases access with
  | scalar kind => cases kind <;> (rw [planGives, Gives.type]; decide)
  | list =>
    rw [planGives, Gives.type]
    decide
  | nested child => cases hleaf

/-- The lines of a property declare it, and the class whose objects it makes. -/
theorem readAt_property (depth : Nat) {name : String} (hname : Identifier.isWellFormed name = true) {scope : Scope}
    (hscope : scope.separator = "") (address : Address) (access : Access) (isCommented : Bool) :
    readAt declaration? depth
        (propertyLines depth (verbatim name) (literal address.text) (planGives name scope access).1) =
      Member.declared ⟨name, address, isCommented, (planGives name scope access).1⟩ := by
  have htext := isNameText_of_isWellFormed hname
  cases hleaf : access.nested? with
  | none =>
    have hbracket := bracket_not_mem_type hleaf name scope
    have hnone : (planGives name scope access).1.class? = none := by
      cases access with
      | scalar kind => rfl
      | list => rfl
      | nested child => cases hleaf
    obtain ⟨type, value, hline, rfl, -, hword, hclass⟩ := exists_leafLine hleaf depth (verbatim name) name scope address
    rw [hline, readAt_singleton rfl (declaration?_propertyText hword.not_mem hclass hbracket htext depth value),
      Member.declared, hnone]
    rfl
  | some child =>
    obtain rfl := eq_nested_of_nested? hleaf
    obtain ⟨type, typed, htype, hwellType, -, -⟩ := exists_claim hscope (isWellFormed_settings hname)
    have htypeText := isNameText_of_isWellFormed hwellType
    have hclass : type.toList ≠ "class".toList := by
      intro heq
      have hsettings := settings_subset_claim htype
      rw [heq] at hsettings
      exact absurd (hsettings (show 'S' ∈ "Settings".toList by decide)) (by decide)
    have hproperty := declaration?_propertyText htypeText.blank_not_mem hclass (htypeText.not_mem (by decide)) htext
      depth ("new " ++ type ++ "(_configuration);")
    have hlines : ([⟨depth, objectProperty (verbatim name) type⟩, blank] : List Line) =
        [⟨depth, propertyText type (verbatim name) ("new " ++ type ++ "(_configuration);")⟩] ++ [blank] := by
      rw [objectProperty_eq]
      rfl
    have hinner : IsNameText (planClass type child).name := (name_planClass type child).symm ▸ htypeText
    have hblank : Silent [blank] := .cons declaration?_blank silent_nil
    rw [propertyLines_nested depth _ child htype, hlines, readAt_append, readAt_append, readAt_singleton rfl hproperty,
      hblank.readAt_eq_nil, readAt_class depth hinner, planGives, htype]
    rfl

theorem readAt_members (depth : Nat) : ∀ (accessors : List Accessor) {scope : Scope}, scope.separator = "" →
    (∀ accessor ∈ accessors, accessor.IsWellNamed) →
    readAt declaration? depth (memberLines depth (planMembers scope accessors)) =
      (planMembers scope accessors).flatMap Member.declared
  | [], _, _, _ => rfl
  | accessor :: accessors, scope, hscope, hnames => by
    obtain ⟨hname, hnames⟩ := List.forall_mem_cons.mp hnames
    obtain ⟨name, named, hclaim, hwell, -, hnamed⟩ := exists_claim hscope hname
    have hrest := readAt_members depth accessors ((separator_planGives name named accessor.access).trans hnamed) hnames
    rw [memberLines_cons depth accessor accessors hclaim, readAt_append, readAt_append, readAt_commentLine,
      readAt_property depth hwell hnamed accessor.address accessor.access (!Key.isPlain accessor.key), hrest,
      planMembers_cons accessor accessors hclaim, List.flatMap_cons, List.nil_append]

/-- **The block of a class declares what is planned for it.** -/
theorem readAt_bodyLines (depth : Nat) {name : String} (hname : Identifier.isWellFormed name = true) {s : Section}
    (hs : ∀ accessor ∈ s.accessors, accessor.IsWellNamed) :
    readAt declaration? depth (bodyLines depth (planClass name s)) = (planClass name s).declared := by
  have hmembers := readAt_members depth s.accessors (separator_memberScope name s.hasLookup) hs
  rw [planClass_eq, bodyLines, readAt_append, readAt_append, hmembers,
    readAt_constructorLines depth (isNameText_of_isWellFormed hname)]
  cases s.hasLookup with
  | false => rfl
  | true =>
    rw [if_pos rfl, readAt_indexer]
    rfl

/-! ## Blocks -/

theorem isWritten_verbatim {name : String} (h : Identifier.isWellFormed name = true) :
    IsWritten name (verbatim name) := by
  refine ⟨h, ?_⟩
  unfold verbatim
  split_ifs with hreserved
  · exact Or.inr rfl
  · exact Or.inl ⟨rfl, fun hmem => hreserved (List.contains_iff_mem.mpr hmem)⟩

/-- What a class declares for its members is written for their names. -/
theorem Class.filterMap_declared (c : Class) :
    c.declared.filterMap Declaration.memberName? = (c.members.flatMap Member.names).map verbatim := by
  have hmember : ∀ member ∈ c.members,
      member.declared.filterMap Declaration.memberName? = member.names.map verbatim := by
    intro member _
    rw [Member.declared, Member.names]
    cases member.gives.class? <;> rfl
  have hindexer : (if c.hasIndexer then [Declaration.indexer] else []).filterMap Declaration.memberName? = [] := by
    split <;> rfl
  rw [declared, List.filterMap_append, List.filterMap_cons_none rfl, hindexer, List.append_nil, List.filterMap_flatMap,
    List.map_flatMap]
  exact List.flatMap_congr hmember

/-- A member that serves an accessor declares what is declared for it. -/
theorem Member.Serves.declaresAccessor {accessor : Accessor} {member : Member} (h : member.Serves accessor) :
    DeclaresAccessor accessor member.declared := by
  obtain ⟨name, address, isCommented, gives⟩ := member
  obtain ⟨identifier, key, address', access⟩ := accessor
  obtain ⟨-, hgives⟩ := h
  cases hgives with
  | scalar kind => exact .leaf rfl
  | list => exact .leaf rfl
  | nested child hname => exact .nested rfl

/-- The name of the field is no identifier. -/
theorem not_isWellFormed_configuration : Identifier.isWellFormed "_configuration" = false := by decide

/-- The name of the indexer is in use where there is one. -/
theorem holds_indexerName (name : String) : (memberScope name true).holds indexerName = true :=
  Scope.holds_reserve.mpr (Or.inl rfl)

/-- What the block of a planned class declares. -/
theorem Class.HasBlock.declarations_eq {c : Class} {b : ClassBlock} (h : c.HasBlock b) {s : Section}
    (hc : c = planClass c.name s) (hs : ∀ accessor ∈ s.accessors, accessor.IsWellNamed) :
    b.declarations = c.declared := by
  have hread := readAt_bodyLines (b.depth + 1) h.wellFormed hs
  rw [← hc] at hread
  rw [ClassBlock.declarations, h.lines, hread]

/-- **The block of a class declares members with names of their own.** -/
theorem Class.HasBlock.declaresMembers {c : Class} {b : ClassBlock} (h : c.HasBlock b) {s : Section}
    (hc : c = planClass c.name s) (hs : ∀ accessor ∈ s.accessors, accessor.IsWellNamed) : DeclaresMembers s b := by
  have hmembers : c.members = planMembers (memberScope c.name s.hasLookup) s.accessors :=
    (congrArg Class.members hc).trans (by rw [planClass_eq])
  have hindexer : c.hasIndexer = s.hasLookup := (congrArg Class.hasIndexer hc).trans (by rw [planClass_eq])
  have hdeclared := h.declarations_eq hc hs
  obtain ⟨scope', hgrows, hwell⟩ := planMembers_grows s.accessors (separator_memberScope c.name s.hasLookup) hs
  rw [← hmembers] at hgrows hwell
  constructor
  · refine ⟨c.members.map Member.declared, ?_, ?_⟩
    · rw [hmembers]
      exact List.forall₂_map_right_iff.mpr ((planMembers_serves s.accessors _).imp fun _ _ h => h.declaresAccessor)
    · rw [hdeclared, h.name, Class.declared, hindexer, List.flatMap_def]
  · have hname : c.name ∉ c.members.flatMap Member.names := fun hmem =>
      ne_true_of_eq_false (hgrows.fresh _ hmem) (holds_memberScope c.name s.hasLookup)
    refine ⟨c.name, c.members.flatMap Member.names, ?_, ?_, List.nodup_cons.mpr ⟨hname, hgrows.nodup⟩,
      fun hlookup hmem => ?_, fun hmem => ?_⟩
    · rw [h.name]
      exact isWritten_verbatim h.wellFormed
    · rw [hdeclared, c.filterMap_declared, List.forall₂_map_right_iff]
      exact List.forall₂_same.mpr fun name hmem => isWritten_verbatim (hwell name hmem)
    · rw [hlookup] at hgrows
      exact ne_true_of_eq_false (hgrows.fresh _ hmem) (holds_indexerName c.name)
    · exact ne_true_of_eq_false not_isWellFormed_configuration (hwell _ hmem)

/-- **Every class declares members with names of their own**, whatever the identifiers of the accessors are and however
often each of them stands there: so it is read between line feeds, and so the language reads it where no comment has a
separator of lines. -/
theorem source_declaresMembers (options : Options) {root : Section} (hroot : root.HasWellFormedNames) :
    List.Forall₂ DeclaresMembers root.walk (classBlocks (readLines isLineFeed (source options root))) ∧
      (root.Each HasOneLineComment →
        List.Forall₂ DeclaresMembers root.walk (classBlocks (readLines endsLine (source options root)))) := by
  have hplanned : List.Forall₂ (fun s c => (∀ accessor ∈ s.accessors, accessor.IsWellNamed) ∧ c = planClass c.name s)
      root.walk (Class.plan options root).walk := by
    refine (List.forall₂_and_left _ _).mpr ⟨fun s hs => hroot s hs, ?_⟩
    rw [Class.plan, walk_planClass, walk_eq]
    refine .cons ?_ ((planClass_isInside root _).imp fun _ _ h => h.eq)
    rw [name_planClass]
  have hblocks : List.Forall₂ DeclaresMembers root.walk (classBlocks (readLines isLineFeed (source options root))) := by
    rw [readLines_source_lineFeed options hroot]
    exact forall₂_trans (fun s c b hc hb => hb.declaresMembers hc.2 hc.1) hplanned
      (hasBlock_writtenLines options hroot)
  refine ⟨hblocks, fun hcomments => ?_⟩
  rw [readLines_endsLine options hroot hcomments]
  exact hblocks

/-- The hypotheses are met by a document one of whose identifiers stands there twice. -/
theorem source_declaresMembers_hostile : Section.hostile.HasWellFormedNames ∧ Section.hostile.Each HasOneLineComment ∧
    List.Forall₂ DeclaresMembers Section.hostile.walk
      (classBlocks (readLines isLineFeed (source {} Section.hostile))) ∧
    List.Forall₂ DeclaresMembers Section.hostile.walk
      (classBlocks (readLines endsLine (source {} Section.hostile))) := by
  obtain ⟨hfeeds, hends⟩ := source_declaresMembers {} Section.hasWellFormedNames_hostile
  exact ⟨Section.hasWellFormedNames_hostile, hasOneLineComment_hostile, hfeeds, hends hasOneLineComment_hostile⟩

/-- A property that is wanted under the name of a class, one under that of the indexer, and one named like a reserved
word. -/
example : (planClass "AppSettings" ⟨.root, 0,
      [ ⟨⟨"Foo"⟩, "Foo", ⟨["Foo"]⟩, .nested ⟨⟨["Foo"]⟩, 1, [], false⟩⟩,
        ⟨⟨"FooSettings"⟩, "FooSettings", ⟨["FooSettings"]⟩, .list⟩,
        ⟨⟨"Item"⟩, "Item", ⟨["Item"]⟩, .list⟩,
        ⟨⟨"int"⟩, "int", ⟨["int"]⟩, .list⟩ ],
      true⟩).declared =
    [ .maker "AppSettings", .property "Foo", .type "FooSettings", .property "FooSettings2", .property "Item2",
      .property "@int", .indexer ] := by rfl

/-- No member has the name of the field. -/
theorem DeclaresMembers.field_not_mem {s : Section} {b : ClassBlock} (h : DeclaresMembers s b) :
    .property "_configuration" ∉ b.declarations := by
  intro hmem
  obtain ⟨-, names, -, hwritten, -⟩ := h.names
  obtain ⟨name, -, hwell, ⟨hname, -⟩ | hname⟩ :=
    exists_mem_of_forall₂ hwritten.flip "_configuration" (List.mem_filterMap.mpr ⟨_, hmem, rfl⟩)
  · rw [← hname, not_isWellFormed_configuration] at hwell
    cases hwell
  · have hmark : '@' ∈ ("@" ++ name).toList := by
      rw [String.toList_append]
      exact List.mem_append_left _ (by decide)
    rw [← hname] at hmark
    exact absurd hmark (by decide)

/-! ## A comment that ends early -/

/-- The lines for a document with one boolean under a complex key, where the comment of its property is given. -/
def booleanLines (name key : String) (comment : List Line) : List Line :=
  openingLines {} ++ (⟨0, "public class AppSettings"⟩ :: ⟨0, "\x7b"⟩ ::
    (constructorLines 1 "AppSettings" ++ comment ++
      (⟨1, scalarProperty name (literal key) .boolean⟩ :: indexerLines 1 .root) ++ [⟨0, "\x7d"⟩]))

/-- The comment is read as the lines into which its key parts it, and all other lines as they are written. -/
theorem readLines_boolean {name key text : String} (hname : Lacks endsLine name)
    (htext : text = renderLines (booleanLines name key [commentLine 1 ⟨[key]⟩])) :
    readLines endsLine text =
      booleanLines name key (((commentLine 1 ⟨[key]⟩).indented.splitOnP endsLine).map readLine) ++ [blank] := by
  obtain ⟨front, hfront⟩ : ∃ front, front = openingLines {} ++
      ([⟨0, "public class AppSettings"⟩, ⟨0, "\x7b"⟩] ++ constructorLines 1 "AppSettings") := ⟨_, rfl⟩
  obtain ⟨behind, hbehind⟩ : ∃ behind, behind =
      [⟨1, scalarProperty name (literal key) .boolean⟩] ++ indexerLines 1 .root ++ [⟨0, "\x7d"⟩] := ⟨_, rfl⟩
  have hlines (comment : List Line) : booleanLines name key comment = front ++ comment ++ behind := by
    rw [hfront, hbehind, booleanLines]
    simp only [List.append_assoc, List.cons_append, List.nil_append]
  have hlackFront : AllLack endsLine front := by
    have hclass : AllLack endsLine [⟨0, "public class AppSettings"⟩, ⟨0, "\x7b"⟩] :=
      .cons (lacks_ofList (by decide)) <| .cons (lacks_ofList (by decide)) allLack_nil
    have hname : Lacks endsLine "AppSettings" := lacks_ofList (by decide)
    rw [hfront]
    exact (allLack_openingLines {}).append (hclass.append (allLack_constructorLines 1 hname))
  have hlackBehind : AllLack endsLine behind := by
    rw [hbehind]
    exact ((Reads.boolean.allLack_property 1 hname (lacks_literal key)).append (allLack_indexerLines 1 .root)).append
      (.cons (lacks_ofList (by decide)) allLack_nil)
  have hstandFront : AllStandAt 0 front := by
    have hclass : AllStandAt 0 [⟨0, "public class AppSettings"⟩, ⟨0, "\x7b"⟩] :=
      .cons (beginsFlush_ofList (by decide)) le_rfl <| .cons (beginsFlush_ofList (by decide)) le_rfl allStandAt_nil
    rw [hfront]
    exact (allStandAt_openingLines {}).append
      (hclass.append ((allStandAt_constructorLines 1 "AppSettings").mono (Nat.zero_le 1)))
  have hstandBehind : AllStandAt 0 behind := by
    have hproperty : AllStandAt 0 [⟨1, scalarProperty name (literal key) .boolean⟩] :=
      .cons (beginsFlush_scalarProperty name (literal key) .boolean) (Nat.zero_le 1) allStandAt_nil
    rw [hbehind]
    exact (hproperty.append ((allStandAt_indexerLines 1 .root).mono (Nat.zero_le 1))).append
      (.cons (beginsFlush_ofList (by decide)) le_rfl allStandAt_nil)
  rw [htext, hlines, hlines, List.append_assoc, List.singleton_append,
    readLines_renderLines_append (by decide) (by decide) ⟨hlackFront, hstandFront⟩ ⟨hlackBehind, hstandBehind⟩]

/-- The first block is that of the root's class, and ends at the first closing brace at its depth. -/
theorem exists_classBlocks_root {lines : List Line} (h : AllStandAt 1 lines) (rest : List Line) : ∃ others,
    classBlocks (openingLines {} ++
        (⟨0, "public class AppSettings"⟩ :: ⟨0, "\x7b"⟩ :: (lines ++ ⟨0, "\x7d"⟩ :: rest))) =
      ⟨0, "AppSettings", lines⟩ :: others := by
  rw [classBlocks_append (declareNone_openingLines {}),
    show "public class AppSettings" = "public class " ++ "AppSettings" from rfl, classBlocks_class, List.tail_cons,
    block_append h]
  exact ⟨_, rfl⟩

/-- A key that begins with a separator of lines and goes on like a property. -/
def disguisedKey : String := "\u2028    public int _configuration \x7b get; \x7d //"

/-- A document with this key only. -/
def disguised : Section :=
  ⟨.root, 0, [⟨⟨"PublicIntConfiguration_Get"⟩, disguisedKey, ⟨[disguisedKey]⟩, .scalar .boolean⟩], true⟩

theorem hasWellFormedNames_disguised : disguised.HasWellFormedNames := by
  unfold Section.HasWellFormedNames Section.Each Accessor.IsWellNamed
  decide

/-- The lines that are read between the braces of its class, where the comment ends at the separator. -/
def disguisedLines : List Line :=
  constructorLines 1 "AppSettings" ++
  [ ⟨1, "/// <summary>Configuration key: \""⟩,
    ⟨1, "public int _configuration \x7b get; \x7d //\"</summary>"⟩ ] ++
  (⟨1, scalarProperty "PublicIntConfiguration_Get" (literal disguisedKey) .boolean⟩ :: indexerLines 1 .root)

theorem allStandAt_disguisedLines : AllStandAt 1 disguisedLines :=
  ((allStandAt_constructorLines 1 _).append <| .cons (beginsFlush_ofList (by decide)) le_rfl <|
    .cons (beginsFlush_ofList (by decide)) le_rfl allStandAt_nil).append <|
    .cons (beginsFlush_scalarProperty "PublicIntConfiguration_Get" (literal disguisedKey) .boolean) le_rfl
      (allStandAt_indexerLines 1 .root)

/-- The comment of its property is read as two lines. -/
theorem readLines_disguised : readLines endsLine (source {} disguised) =
    openingLines {} ++ (⟨0, "public class AppSettings"⟩ :: ⟨0, "\x7b"⟩ ::
      (disguisedLines ++ ⟨0, "\x7d"⟩ :: [blank])) := by
  have hcomment : ((commentLine 1 ⟨[disguisedKey]⟩).indented.splitOnP endsLine).map readLine =
      [ ⟨1, "/// <summary>Configuration key: \""⟩,
        ⟨1, "public int _configuration \x7b get; \x7d //\"</summary>"⟩ ] := by
    decide
  have htext : source {} disguised =
      renderLines (booleanLines "PublicIntConfiguration_Get" disguisedKey [commentLine 1 ⟨[disguisedKey]⟩]) := rfl
  rw [readLines_boolean (lacks_ofList (by decide)) htext, hcomment, booleanLines, disguisedLines]
  simp only [List.append_assoc, List.cons_append, List.nil_append]

/-- **A separator in a comment ends it, and what stands behind it is declared**: the class gets a property of the name
that its field has. -/
theorem source_disguised : disguised.HasWellFormedNames ∧
    ¬List.Forall₂ DeclaresMembers disguised.walk (classBlocks (readLines endsLine (source {} disguised))) := by
  have hproperty : .property "_configuration" ∈ ClassBlock.declarations ⟨0, "AppSettings", disguisedLines⟩ := by
    refine List.mem_filterMap.mpr ⟨⟨1, "public int _configuration \x7b get; \x7d //\"</summary>"⟩,
      List.mem_filter.mpr ⟨?_, rfl⟩, by decide⟩
    exact List.mem_append_left _ (List.mem_append_right _ (List.mem_cons_of_mem _ List.mem_cons_self))
  obtain ⟨others, hblocks⟩ := exists_classBlocks_root allStandAt_disguisedLines [blank]
  refine ⟨hasWellFormedNames_disguised, fun hdeclares => ?_⟩
  rw [readLines_disguised, hblocks] at hdeclares
  cases hdeclares with
  | cons hfirst _ => exact hfirst.field_not_mem hproperty

end TypedSettings.Classes
