import TypedSettings.Proofs.Address
import TypedSettings.Proofs.Structs.Declarations
import TypedSettings.Proofs.Text.Reading

/-!
# Structs read back

The text of a module is read line by line (`readStructs`). A line that opens an implementation names a struct. In the
block behind it, a line at the depth of the methods that opens a public function is a method, with its name and its
parameters, and the line behind it asks the provider at a path, which is put together from literals and the key that is
given (`asks?`).

* `planStructs_follows`: each struct has the methods that are planned for the accessors of its section;
* `readStructs_plan`: the text of a module reads back to the structs that are planned for its document;
* `readStructs_source`: of the text of a document, there is one for every section, in the order of the sections.
-/

namespace TypedSettings.Structs

open Text

/-! ## What is read -/

/-- A method: its name, its parameters, and at which path its body asks the provider, if it does. -/
structure ReadMethod where
  name : String
  parameters : String
  asks? : Option PathExpression
  deriving DecidableEq, Repr

/-- A struct: its name and its methods. -/
structure ReadStruct where
  name : String
  methods : List ReadMethod
  deriving DecidableEq, Repr

/-- What stands in front of the path where a body asks the provider. -/
def questions : List String := ["self.provider.get(", "self.provider.children("]

/-- Reads the expression of a path in front of a closing bracket. -/
def pathExpression? (cs : List Char) : Option PathExpression :=
  match readQuoted cs with
  | some (text, ')' :: _) => some (.literal (String.ofList text))
  | some _ => none
  | none =>
    if "key)".toList.isPrefixOf cs then some .key
    else match ("&[".toList.isPrefixOf? cs).bind readQuoted with
      | some (text, rest) =>
        if ", key].concat())".toList.isPrefixOf rest then some (.behind (String.ofList text)) else none
      | none => none

/-- At which path a body asks the provider. -/
def asks? (body : List Char) : Option PathExpression := (behindAny? questions body).bind pathExpression?

/-- Reads a line at a depth as the opening of a method, with its name and its parameters. -/
def signature? (depth : Nat) (line : Line) : Option (String × String) :=
  if line.depth = depth then
    (behindAny? ["pub fn "] line.text.toList).map fun cs =>
      (String.ofList (cs.takeWhile (· != '(')),
        String.ofList ((cs.dropWhile (· != '(')).tail.takeWhile (· != ')')))
  else none

/-- Reads the methods in a block, each with the line behind the one that opens it. -/
def readMethods (depth : Nat) : List Line → List ReadMethod
  | [] => []
  | line :: lines =>
    match signature? depth line with
    | some (name, parameters) =>
      ⟨name, parameters, lines.head?.bind fun body => asks? body.text.toList⟩ :: readMethods depth lines
    | none => readMethods depth lines

/-- Reads a line as the opening of an implementation, with the name of the struct. -/
def structName? (line : Line) : Option String :=
  if line.depth = 1 then
    (behindAny? ["impl<'a> "] line.text.toList).map fun cs => String.ofList (cs.takeWhile (· != '<'))
  else none

/-- Reads the structs that lines implement. -/
def readStructs : List Line → List ReadStruct
  | [] => []
  | line :: lines =>
    match structName? line with
    | some name => ⟨name, readMethods (line.depth + 1) (block line.depth lines)⟩ :: readStructs lines
    | none => readStructs lines

/-! ## What is planned -/

/-- At which path a method asks the provider. -/
def Gives.asks? (address : Address) : Gives → Option PathExpression
  | .struct _ => none
  | .scalar _ => some (.literal address.text)
  | .list => some (.literal address.text)

/-- The method of an accessor as it is to be read. -/
def Method.shown (method : Method) : ReadMethod := ⟨method.name, "&self", method.gives.asks? method.address⟩

/-- The parameters of the lookup by raw key. -/
def lookupParameters : String := "&self, key: &str"

/-- A struct as it is to be read: between the method that makes it, for the root, and its lookup stand the methods of
the accessors. -/
def Struct.shown (provider : String) (struct : Struct) : ReadStruct :=
  ⟨struct.name,
    (if struct.isRoot then [⟨makeName, "provider: &'a dyn " ++ provider, none⟩] else []) ++
      struct.methods.map Method.shown ++
      if struct.hasLookup then [⟨lookupName, lookupParameters, some struct.address.lookup⟩] else []⟩

/-! ## Planned methods -/

/-- A struct follows the plan for a section: its methods are those that are planned for the accessors. -/
structure Struct.Follows (isRoot : Bool) (s : Section) (struct : Struct) : Prop where
  isRoot : struct.isRoot = isRoot
  address : struct.address = s.address
  hasLookup : struct.hasLookup = s.hasLookup
  methods : ∃ chain types,
    struct.methods = (planMethods chain (methodScope struct.isRoot struct.hasLookup) types s.accessors).1

mutual

/-- **Every struct follows the plan for its section.** -/
theorem planStructs_follows : ∀ (s : Section) (name chain : String) (isRoot : Bool) (types : Scope),
    ∃ struct inner, (planStructs name chain isRoot types s).1 = struct :: inner ∧ struct.Follows isRoot s ∧
      List.Forall₂ (Struct.Follows false) (Section.walkAccessors s.accessors) inner
  | ⟨address, depth, accessors, hasLookup⟩, name, chain, isRoot, types => by
    obtain ⟨hserves, -⟩ := planMethods_spec chain accessors (methodScope isRoot hasLookup) types
    exact ⟨_, _, rfl, ⟨rfl, rfl, rfl, chain, types, rfl⟩, planNested_follows accessors chain _ hserves⟩

theorem planNested_follows : ∀ (accessors : List Accessor) {methods : List Method} (chain : String) (types : Scope),
    List.Forall₂ Method.Serves accessors methods →
    List.Forall₂ (Struct.Follows false) (Section.walkAccessors accessors) (planNested chain types methods accessors).1
  | [], _, _, _, .nil => .nil
  | ⟨identifier, key, address, access⟩ :: accessors, ⟨name, _, gives⟩ :: methods, chain, types,
      .cons ⟨_, hserves⟩ hrest => by
    cases hserves with
    | scalar kind => exact planNested_follows accessors chain types hrest
    | list => exact planNested_follows accessors chain types hrest
    | nested child type =>
      obtain ⟨struct, inner, hstructs, hfollows, hinner⟩ :=
        planStructs_follows child type (chain ++ identifier.text) false types
      have hwalk : Section.walkAccessors (⟨identifier, key, address, .nested child⟩ :: accessors) =
          (child :: Section.walkAccessors child.accessors) ++ Section.walkAccessors accessors := by
        rw [← walk_eq]
        rfl
      rw [planNested_cons_nested, hstructs, hwalk]
      exact List.rel_append (.cons hfollows hinner) (planNested_follows accessors chain _ hrest)

end

/-- A method can be read back: nothing in its name opens parameters, and the struct that it gives has a name. -/
structure Method.IsReadable (method : Method) : Prop where
  name : '(' ∉ method.name.toList
  type : ∀ type, method.gives = .struct type → IsNameText type ∧ type.toList ≠ []

theorem bracket_not_mem_escaped {name : String} (h : IsNameText name) : '(' ∉ (escaped name).toList := by
  have hname : '(' ∉ name.toList := h.not_mem (by decide)
  unfold escaped
  split_ifs
  · rw [String.toList_append, List.mem_append, not_or]
    exact ⟨hname, by decide⟩
  · rw [String.toList_append, List.mem_append, not_or]
    exact ⟨by decide, hname⟩
  · exact hname

/-- The type that is given out for a nested section has its fixed end in it. -/
theorem freeName_settings_ne_nil (types : Scope) (chain : String) (identifier : Identifier) :
    (types.freeName (nestedTypeName chain identifier)).toList ≠ [] := by
  have hwanted : (nestedTypeName chain identifier).toList ≠ [] := by
    rw [nestedTypeName, String.toList_append]
    exact List.append_ne_nil_of_right_ne_nil _ (by decide)
  rcases types.freeName_eq (nestedTypeName chain identifier) with heq | ⟨k, heq⟩
  · rw [heq]
    exact hwanted
  · rw [heq, Scope.toList_numbered, List.append_assoc]
    exact List.append_ne_nil_of_left_ne_nil hwanted _

/-- Planned methods can be read back. -/
theorem planMethods_isReadable {chain : String} : ∀ {accessors : List Accessor} {names types : Scope},
    (∀ accessor ∈ accessors, accessor.IsWellNamed) → IsNameText names.separator →
    (∀ method ∈ (planMethods chain names types accessors).1, method.HasNameTexts) →
    ∀ method ∈ (planMethods chain names types accessors).1, method.IsReadable
  | [], _, _, _, _, _ => List.forall_mem_nil _
  | ⟨identifier, key, address, access⟩ :: accessors, names, types, haccessors, hnames, htexts => by
    obtain ⟨haccessor, hrest⟩ := List.forall_mem_cons.mp haccessors
    have hname : '(' ∉ (escaped (names.freeName (snakeCase identifier.text))).toList :=
      bracket_not_mem_escaped (hnames.freeName (isNameText_snakeCase haccessor.isNameText))
    cases access with
    | scalar kind =>
      obtain ⟨-, htexts⟩ := List.forall_mem_cons.mp htexts
      exact List.forall_mem_cons.mpr ⟨⟨hname, fun _ h => by cases h⟩, planMethods_isReadable hrest hnames htexts⟩
    | list =>
      obtain ⟨-, htexts⟩ := List.forall_mem_cons.mp htexts
      exact List.forall_mem_cons.mpr ⟨⟨hname, fun _ h => by cases h⟩, planMethods_isReadable hrest hnames htexts⟩
    | nested child =>
      obtain ⟨htext, htexts⟩ := List.forall_mem_cons.mp htexts
      refine List.forall_mem_cons.mpr ⟨⟨hname, fun type h => ⟨htext.type type h, ?_⟩⟩,
        planMethods_isReadable hrest hnames htexts⟩
      rw [← Gives.struct.inj h]
      exact freeName_settings_ne_nil types chain identifier

/-! ## Paths read back -/

theorem apart_questions : Apart questions := by
  unfold Apart
  decide

/-- Behind a question stands the path. -/
theorem asks?_append {question : String} (h : question ∈ questions) (cs : List Char) :
    asks? (question.toList ++ cs) = pathExpression? cs := by
  rw [asks?, behindAny?_append apart_questions h, Option.bind_some]

/-- A literal in front of a bracket is the path. -/
theorem asks?_literal {question behind : String} {cs : List Char} (h : question ∈ questions) (address : Address)
    (hbehind : behind.toList = ')' :: cs) :
    asks? (question ++ literal address ++ behind).toList = some (.literal address.text) := by
  have hquoted := isQuotedOf_quoted address.text (')' :: cs)
  rw [String.toList_append, String.toList_append, List.append_assoc, asks?_append h, hbehind, literal, pathExpression?,
    hquoted]
  simp only [String.ofList_toList]

/-- The body of the lookup asks where the children of its section are. -/
theorem asks?_lookupBody (address : Address) :
    asks? (lookupBody address ++ ".unwrap_or_default()").toList = some address.lookup := by
  have hquestion : "self.provider.get(" ∈ questions := List.mem_cons_self
  rw [Address.lookup]
  unfold lookupBody
  rw [address.isEmpty_stem]
  split
  · exact asks?_append hquestion "key).unwrap_or_default()".toList
  · have hquoted := isQuotedOf_quoted address.stem ", key].concat()).unwrap_or_default()".toList
    have htext : ("self.provider.get(&[" ++ quoted address.stem ++ ", key].concat())" ++
        ".unwrap_or_default()").toList = "self.provider.get(".toList ++ ("&[".toList ++
          ((quoted address.stem).toList ++ ", key].concat()).unwrap_or_default()".toList)) := by
      simp only [String.toList_append, List.append_assoc]
      rfl
    have hbracket : "&[".toList.isPrefixOf? ("&[".toList ++
        ((quoted address.stem).toList ++ ", key].concat()).unwrap_or_default()".toList)) =
          some ((quoted address.stem).toList ++ ", key].concat()).unwrap_or_default()".toList) :=
      List.isPrefixOf?_eq_some_iff_append_eq.mpr rfl
    have hnoQuote : readQuoted ("&[".toList ++
        ((quoted address.stem).toList ++ ", key].concat()).unwrap_or_default()".toList)) = none := rfl
    have hnoKey : "key)".toList.isPrefixOf ("&[".toList ++
        ((quoted address.stem).toList ++ ", key].concat()).unwrap_or_default()".toList)) = false := rfl
    rw [htext, asks?_append hquestion, pathExpression?, hnoQuote, hbracket, hnoKey, Option.bind_some, hquoted]
    simp only [String.ofList_toList]
    rfl

/-- A text without blanks that stands in front of a blank is all that a word can be the front of. -/
theorem isPrefix_of_isPrefix_blank {word name rest : List Char} (hword : ' ' ∉ word)
    (h : word <+: name ++ ' ' :: rest) : word <+: name := by
  rcases List.prefix_or_prefix_of_prefix h (List.prefix_append name (' ' :: rest)) with hshort | ⟨more, rfl⟩
  · exact hshort
  · cases more with
    | nil => exact (List.append_nil name).symm ▸ List.prefix_refl name
    | cons c cs =>
      have hblank : c = ' ' := (List.cons_prefix_cons.mp ((List.prefix_append_right_inj name).mp h)).1
      exact absurd (List.mem_append_right _ (hblank ▸ List.mem_cons_self)) hword

/-- The body that makes a struct asks at no path. -/
theorem asks?_makes {type : String} (h : IsNameText type) :
    asks? (type ++ " \x7b provider: self.provider \x7d").toList = none := by
  have hwords : ∀ question ∈ questions, ' ' ∉ question.toList ∧ '.' ∈ question.toList := by decide
  have hpoint : '.' ∉ type.toList := h.not_mem (by decide)
  have hnone : behindAny? questions (type ++ " \x7b provider: self.provider \x7d").toList = none := by
    refine List.findSome?_eq_none_iff.mpr fun question hmem => Option.eq_none_iff_forall_ne_some.mpr fun rest hrest => ?_
    obtain ⟨hblank, hmark⟩ := hwords question hmem
    have hbegins : question.toList <+: type.toList ++ ' ' :: "\x7b provider: self.provider \x7d".toList :=
      ⟨rest, (List.isPrefixOf?_eq_some_iff_append_eq.mp hrest).trans String.toList_append⟩
    exact hpoint ((isPrefix_of_isPrefix_blank hblank hbegins).subset hmark)
  rw [asks?, hnone, Option.bind_none]

/-- The body of a method asks at the method's address. -/
theorem asks?_body {method : Method} (h : method.IsReadable) :
    asks? (method.gives.body (literal method.address)).toList = method.gives.asks? method.address := by
  obtain ⟨name, address, gives⟩ := method
  cases gives with
  | scalar kind =>
    cases kind with
    | string | integer | float | boolean => exact asks?_literal List.mem_cons_self address rfl
  | list => exact asks?_literal (List.mem_cons_of_mem _ List.mem_cons_self) address rfl
  | struct type => exact asks?_makes (h.type type rfl).1

/-! ## Methods read back -/

/-- The line that opens a method. -/
theorem signature?_eq {name parameters : String} (hname : '(' ∉ name.toList) (hparameters : ')' ∉ parameters.toList)
    (depth : Nat) (rest : String) :
    signature? depth ⟨depth, "pub fn " ++ name ++ "(" ++ parameters ++ ")" ++ rest⟩ = some (name, parameters) := by
  have htext : ("pub fn " ++ name ++ "(" ++ parameters ++ ")" ++ rest).toList =
      "pub fn ".toList ++ (name.toList ++ '(' :: (parameters.toList ++ ')' :: rest.toList)) := by
    simp only [String.toList_append, List.append_assoc]
    rfl
  have happart : Apart ["pub fn "] := by
    unfold Apart
    decide
  have hopen : ∀ c ∈ name.toList, (c != '(') = true := fun c hc => bne_iff_ne.mpr fun he => hname (he ▸ hc)
  have hclose : ∀ c ∈ parameters.toList, (c != ')') = true := fun c hc =>
    bne_iff_ne.mpr fun he => hparameters (he ▸ hc)
  rw [signature?, if_pos rfl, htext, behindAny?_append happart List.mem_cons_self, Option.map_some,
    List.takeWhile_append_of_pos hopen, List.dropWhile_append_of_pos hopen,
    List.takeWhile_cons_of_neg (by decide), List.dropWhile_cons_of_neg (by decide), List.tail_cons,
    List.takeWhile_append_of_pos hclose, List.takeWhile_cons_of_neg (by decide), List.append_nil, List.append_nil,
    String.ofList_toList, String.ofList_toList]

/-- Lines that open no method are passed over. -/
theorem readMethods_cons_of_eq_none {depth : Nat} {line : Line} (h : signature? depth line = none) (lines : List Line) :
    readMethods depth (line :: lines) = readMethods depth lines := by
  rw [readMethods, h]

theorem readMethods_cons_of_eq_some {depth : Nat} {line : Line} {name parameters : String}
    (h : signature? depth line = some (name, parameters)) (body : Line) (lines : List Line) :
    readMethods depth (line :: body :: lines) =
      ⟨name, parameters, asks? body.text.toList⟩ :: readMethods depth (body :: lines) := by
  rw [readMethods, h]
  rfl

/-- A line at another depth opens no method. -/
theorem signature?_eq_none_of_ne {depth : Nat} {line : Line} (h : line.depth ≠ depth) : signature? depth line = none :=
  if_neg h

/-- A line that begins otherwise opens no method. -/
theorem signature?_eq_none {depth deeper : Nat} {front : List Char}
    (h : ¬"pub fn ".toList <+: front ∧ ¬front <+: "pub fn ".toList) (rest : String) :
    signature? depth ⟨deeper, String.ofList front ++ rest⟩ = none := by
  have hnone := behindAny?_eq_none (List.forall_mem_singleton.mpr h) rest.toList
  rw [signature?, String.toList_append, String.toList_ofList, hnone]
  exact ite_self _

/-- Lines read back to one method, whatever stands behind them. -/
def ReadsMethod (method : ReadMethod) (lines : List Line) : Prop :=
  ∀ rest, readMethods 2 (lines ++ rest) = method :: readMethods 2 rest

/-- The lines of a method: a comment, the line that opens it, its body and the closing brace. -/
theorem readsMethod {name parameters : String} (hname : '(' ∉ name.toList) (hparameters : ')' ∉ parameters.toList)
    (behind body : String) {comments : List Line} (hcomments : ∀ line ∈ comments, signature? 2 line = none) :
    ReadsMethod ⟨name, parameters, asks? body.toList⟩
      (comments ++ [⟨2, "pub fn " ++ name ++ "(" ++ parameters ++ ")" ++ behind⟩, ⟨3, body⟩, ⟨2, "\x7d"⟩]) := by
  intro rest
  have hbrace : signature? 2 ⟨2, "\x7d"⟩ = none := by decide
  induction comments with
  | nil =>
    rw [List.nil_append, List.cons_append, List.cons_append, List.cons_append, List.nil_append,
      readMethods_cons_of_eq_some (signature?_eq hname hparameters 2 behind),
      readMethods_cons_of_eq_none (signature?_eq_none_of_ne (show 3 ≠ 2 by decide)), readMethods_cons_of_eq_none hbrace]
  | cons line comments ih =>
    obtain ⟨hline, hcomments⟩ := List.forall_mem_cons.mp hcomments
    rw [List.cons_append, List.cons_append, readMethods_cons_of_eq_none hline]
    exact ih hcomments

theorem Method.IsReadable.readsMethod {method : Method} (h : method.IsReadable) :
    ReadsMethod method.shown method.lines := by
  have hcomment : signature? 2 ⟨2, "/// Configuration " ++ method.gives.addressWord ++ ": " ++ literal method.address⟩ =
      none := by
    rw [String.append_assoc, String.append_assoc]
    exact signature?_eq_none (by decide) _
  have hline : "pub fn " ++ method.name ++ "(&self) -> " ++ method.gives.type ++ " \x7b" =
      "pub fn " ++ method.name ++ "(" ++ "&self" ++ ")" ++ (" -> " ++ method.gives.type ++ " \x7b") := by
    refine String.toList_inj.mp ?_
    simp only [String.toList_append, List.append_assoc]
    rfl
  have hread := Structs.readsMethod h.name (show ')' ∉ "&self".toList by decide)
    (" -> " ++ method.gives.type ++ " \x7b") (method.gives.body (literal method.address))
    (List.forall_mem_singleton.mpr hcomment)
  rw [asks?_body h, ← hline] at hread
  exact hread

theorem readsMethod_makeLines {provider : String} (h : IsNameText provider) :
    ReadsMethod ⟨makeName, "provider: &'a dyn " ++ provider, none⟩ (makeLines provider) := by
  have hline : "pub fn " ++ makeName ++ "(provider: &'a dyn " ++ provider ++ ") -> Self \x7b" =
      "pub fn " ++ makeName ++ "(" ++ ("provider: &'a dyn " ++ provider) ++ ")" ++ " -> Self \x7b" := by
    refine String.toList_inj.mp ?_
    simp only [String.toList_append, List.append_assoc]
    rfl
  have hparameters : ')' ∉ ("provider: &'a dyn " ++ provider).toList := by
    rw [String.toList_append, List.mem_append, not_or]
    exact ⟨by decide, h.not_mem (by decide)⟩
  have hbody : asks? "Self \x7b provider \x7d".toList = none := by decide
  have hread := readsMethod (show '(' ∉ makeName.toList by decide) hparameters " -> Self \x7b" "Self \x7b provider \x7d"
    (List.forall_mem_nil _)
  rw [hbody, ← hline] at hread
  exact hread

theorem readsMethod_lookupLines (address : Address) :
    ReadsMethod ⟨lookupName, lookupParameters, some address.lookup⟩ (lookupLines address) := by
  have hcomment : signature? 2
      ⟨2, "/// Value by exact key name, for keys whose accessor name differs from the key."⟩ = none := by decide
  have hline : "pub fn " ++ lookupName ++ "(&self, key: &str) -> String \x7b" =
      "pub fn " ++ lookupName ++ "(" ++ lookupParameters ++ ")" ++ " -> String \x7b" := by rfl
  have hread := readsMethod (show '(' ∉ lookupName.toList by decide) (show ')' ∉ lookupParameters.toList by decide)
    " -> String \x7b" (lookupBody address ++ ".unwrap_or_default()") (List.forall_mem_singleton.mpr hcomment)
  rw [asks?_lookupBody, ← hline] at hread
  exact hread

/-- **Methods with empty lines between them read back one by one.** -/
theorem readMethods_parted {methods : List ReadMethod} {groups : List (List Line)}
    (h : List.Forall₂ ReadsMethod methods groups) : readMethods 2 (parted groups) = methods := by
  induction h with
  | nil => rfl
  | @cons method group methods groups hmethod hrest ih =>
    cases hrest with
    | nil =>
      have hread := hmethod []
      rw [List.append_nil] at hread
      rw [parted, List.intercalate_singleton, hread]
      rfl
    | cons hnext hmore =>
      have hblank : signature? 2 blank = none := by decide
      rw [parted] at ih
      rw [parted, List.intercalate_cons_cons, List.append_assoc, hmethod, List.singleton_append,
        readMethods_cons_of_eq_none hblank, ih]

/-! ## Depths -/

theorem beginsFlush_of_isNameText {name : String} (h : IsNameText name) (hne : name.toList ≠ []) : BeginsFlush name := by
  cases hname : name.toList with
  | nil => exact absurd hname hne
  | cons c cs =>
    refine ⟨c, cs, hname, beq_false_of_ne ?_⟩
    rintro rfl
    exact h.blank_not_mem (hname ▸ List.mem_cons_self)

theorem Method.IsReadable.allStandAt_lines {method : Method} (h : method.IsReadable) : AllStandAt 2 method.lines := by
  have hbody : BeginsFlush (method.gives.body (literal method.address)) := by
    cases hgives : method.gives with
    | scalar kind => cases kind <;> exact ((beginsFlush_ofList (by decide)).append _).append _
    | list => exact ((beginsFlush_ofList (by decide)).append _).append _
    | struct type =>
      obtain ⟨htype, hne⟩ := h.type type hgives
      exact (beginsFlush_of_isNameText htype hne).append _
  refine .cons ?_ le_rfl <| .cons ?_ le_rfl <| .cons hbody (by decide) <|
    .cons (beginsFlush_ofList (by decide)) le_rfl allStandAt_nil
  · exact (((beginsFlush_ofList (by decide)).append _).append _).append _
  · exact ((((beginsFlush_ofList (by decide)).append _).append _).append _).append _

theorem allStandAt_makeLines (provider : String) : AllStandAt 2 (makeLines provider) :=
  .cons (((((beginsFlush_ofList (by decide)).append _).append _).append _).append _) le_rfl <|
    .cons (beginsFlush_ofList (by decide)) (by decide) <|
    .cons (beginsFlush_ofList (by decide)) le_rfl allStandAt_nil

theorem allStandAt_lookupLines (address : Address) : AllStandAt 2 (lookupLines address) := by
  have hbody : BeginsFlush (lookupBody address) := by
    unfold lookupBody
    split
    · exact beginsFlush_ofList (by decide)
    · exact ((beginsFlush_ofList (by decide)).append _).append _
  exact .cons (beginsFlush_ofList (by decide)) le_rfl <|
    .cons (((beginsFlush_ofList (by decide)).append _).append _) le_rfl <| .cons (hbody.append _) (by decide) <|
    .cons (beginsFlush_ofList (by decide)) le_rfl allStandAt_nil

/-- What is needed to read a struct back. -/
structure Struct.IsReadable (struct : Struct) : Prop where
  name : IsNameText struct.name
  methods : ∀ method ∈ struct.methods, method.IsReadable

/-- The methods of a struct read back to those that are planned, each deeper than the struct. -/
theorem Struct.IsReadable.methodLines {struct : Struct} (h : struct.IsReadable) {provider : String}
    (hprovider : IsNameText provider) :
    List.Forall₂ (fun method lines => ReadsMethod method lines ∧ AllStandAt 2 lines) (struct.shown provider).methods
      (struct.methodLines provider) := by
  refine List.rel_append (List.rel_append ?_ ?_) ?_
  · split
    · exact .cons ⟨readsMethod_makeLines hprovider, allStandAt_makeLines provider⟩ .nil
    · exact .nil
  · refine List.forall₂_map_left_iff.mpr (List.forall₂_map_right_iff.mpr (List.forall₂_same.mpr fun method hmem => ?_))
    exact ⟨(h.methods method hmem).readsMethod, (h.methods method hmem).allStandAt_lines⟩
  · split
    · exact .cons ⟨readsMethod_lookupLines struct.address, allStandAt_lookupLines struct.address⟩ .nil
    · exact .nil

theorem Struct.IsReadable.allStandAt_parted {struct : Struct} (h : struct.IsReadable) {provider : String}
    (hprovider : IsNameText provider) : AllStandAt 2 (parted (struct.methodLines provider)) := by
  refine Text.allStandAt_parted fun group hmem => ?_
  obtain ⟨method, -, -, hstand⟩ := exists_mem_of_forall₂ (h.methodLines hprovider).flip group hmem
  exact hstand

/-! ## Structs read back -/

/-- No line opens an implementation. -/
def OpenNone (lines : List Line) : Prop := ∀ line ∈ lines, structName? line = none

theorem openNone_nil : OpenNone [] := List.forall_mem_nil _

theorem OpenNone.cons {depth : Nat} {front : List Char} {rest : String} {lines : List Line}
    (hline : ¬"impl<'a> ".toList <+: front ∧ ¬front <+: "impl<'a> ".toList) (h : OpenNone lines) :
    OpenNone (⟨depth, String.ofList front ++ rest⟩ :: lines) := by
  refine List.forall_mem_cons.mpr ⟨?_, h⟩
  rw [structName?, String.toList_append, String.toList_ofList, behindAny?_eq_none (List.forall_mem_singleton.mpr hline)]
  exact ite_self _

/-- A line at another depth opens none. -/
theorem OpenNone.cons_of_ne {line : Line} {lines : List Line} (hline : line.depth ≠ 1) (h : OpenNone lines) :
    OpenNone (line :: lines) := List.forall_mem_cons.mpr ⟨if_neg hline, h⟩

theorem OpenNone.append {lines more : List Line} (h : OpenNone lines) (hmore : OpenNone more) :
    OpenNone (lines ++ more) := List.forall_mem_append.mpr ⟨h, hmore⟩

theorem openNone_of_allStandAt {lines : List Line} (h : AllStandAt 2 lines) : OpenNone lines := by
  intro line hmem
  refine if_neg ?_
  rcases h line hmem with rfl | ⟨hdepth, -⟩
  · decide
  · omega

/-- Lines that open no implementation are passed over. -/
theorem readStructs_append {lines : List Line} (h : OpenNone lines) (rest : List Line) :
    readStructs (lines ++ rest) = readStructs rest := by
  induction lines with
  | nil => rfl
  | cons line lines ih =>
    obtain ⟨hline, hlines⟩ := List.forall_mem_cons.mp h
    rw [List.cons_append, readStructs, hline]
    exact ih hlines

theorem structName?_eq {name : String} (h : IsNameText name) :
    structName? ⟨1, "impl<'a> " ++ name ++ "<'a> \x7b"⟩ = some name := by
  have hmark : '<' ∉ name.toList := h.not_mem (by decide)
  have hname : ∀ c ∈ name.toList, (c != '<') = true := fun c hc => bne_iff_ne.mpr fun he => hmark (he ▸ hc)
  have htext : ("impl<'a> " ++ name ++ "<'a> \x7b").toList =
      "impl<'a> ".toList ++ (name.toList ++ '<' :: "'a> \x7b".toList) := by
    simp only [String.toList_append, List.append_assoc]
    rfl
  have happart : Apart ["impl<'a> "] := by
    unfold Apart
    decide
  rw [structName?, if_pos rfl, htext, behindAny?_append happart List.mem_cons_self, Option.map_some,
    List.takeWhile_append_of_pos hname, List.takeWhile_cons_of_neg (by decide), List.append_nil, String.ofList_toList]

theorem structName?_comment (struct : Struct) : structName? ⟨1, struct.comment⟩ = none := by
  unfold Struct.comment
  split
  · decide
  · rw [String.append_assoc]
    exact OpenNone.cons (by decide) openNone_nil _ List.mem_cons_self

/-- **The lines of a struct read back to it.** -/
theorem Struct.IsReadable.readStructs_lines {struct : Struct} (h : struct.IsReadable) {provider : String}
    (hprovider : IsNameText provider) (rest : List Line) :
    readStructs (struct.lines provider ++ rest) = struct.shown provider :: readStructs rest := by
  have hstruct : structName? ⟨1, "pub struct " ++ struct.name ++ "<'a> \x7b"⟩ = none := by
    rw [String.append_assoc]
    exact OpenNone.cons (by decide) openNone_nil _ List.mem_cons_self
  have hfront : OpenNone [ blank, ⟨1, struct.comment⟩, ⟨1, "#[derive(Clone, Copy)]"⟩,
      ⟨1, "pub struct " ++ struct.name ++ "<'a> \x7b"⟩, ⟨2, "provider: &'a dyn " ++ provider ++ ","⟩, ⟨1, "\x7d"⟩,
      blank ] :=
    .cons_of_ne (by decide) <| List.forall_mem_cons.mpr ⟨structName?_comment struct,
      List.forall_mem_cons.mpr ⟨by decide, List.forall_mem_cons.mpr ⟨hstruct, OpenNone.cons_of_ne (show 2 ≠ 1 by decide) <|
        List.forall_mem_cons.mpr ⟨by decide, OpenNone.cons_of_ne (by decide) openNone_nil⟩⟩⟩⟩
  have hstand := h.allStandAt_parted hprovider
  have hbrace : OpenNone [⟨1, "\x7d"⟩] := List.forall_mem_singleton.mpr (by decide)
  have hmethods : readMethods 2 (parted (struct.methodLines provider)) = (struct.shown provider).methods :=
    readMethods_parted ((h.methodLines hprovider).imp fun _ _ hread => hread.1)
  have hlines : struct.lines provider ++ rest =
      [ blank, ⟨1, struct.comment⟩, ⟨1, "#[derive(Clone, Copy)]"⟩,
        ⟨1, "pub struct " ++ struct.name ++ "<'a> \x7b"⟩, ⟨2, "provider: &'a dyn " ++ provider ++ ","⟩, ⟨1, "\x7d"⟩,
        blank ] ++ (⟨1, "impl<'a> " ++ struct.name ++ "<'a> \x7b"⟩ ::
          (parted (struct.methodLines provider) ++ ⟨1, "\x7d"⟩ :: rest)) := by
    rw [Struct.lines]
    simp only [List.append_assoc, List.cons_append, List.nil_append]
  rw [hlines, readStructs_append hfront, readStructs, structName?_eq h.name]
  simp only
  rw [block_append hstand, hmethods, readStructs_append (openNone_of_allStandAt hstand)]
  exact congrArg _ (readStructs_append hbrace rest)

/-! ## The text of a document -/

/-- The section of a struct has readable names. -/
theorem Struct.Follows.isReadable {isRoot : Bool} {s : Section} {struct : Struct} (h : struct.Follows isRoot s)
    (hs : ∀ accessor ∈ s.accessors, accessor.IsWellNamed) (htexts : struct.HasNameTexts) : struct.IsReadable := by
  obtain ⟨chain, types, hmethods⟩ := h.methods
  have hscope : IsNameText (methodScope struct.isRoot struct.hasLookup).separator := by
    cases struct.isRoot <;> cases struct.hasLookup <;> exact isNameText_ofList (by decide)
  refine ⟨htexts.name, ?_⟩
  rw [hmethods]
  exact planMethods_isReadable hs hscope (hmethods ▸ htexts.methods)

theorem allStandAt_traitLines (provider : String) : AllStandAt 1 (traitLines provider) :=
  .cons (beginsFlush_ofList (by decide)) le_rfl <|
    .cons (((beginsFlush_ofList (by decide)).append _).append _) le_rfl <|
    .cons (beginsFlush_ofList (by decide)) (by decide) <| .cons (beginsFlush_ofList (by decide)) (by decide) <|
    .cons_blank <| .cons (beginsFlush_ofList (by decide)) (by decide) <|
    .cons (beginsFlush_ofList (by decide)) (by decide) <|
    .cons (beginsFlush_ofList (by decide)) le_rfl allStandAt_nil

theorem openNone_traitLines (provider : String) : OpenNone (traitLines provider) := by
  have htrait : structName? ⟨1, "pub trait " ++ provider ++ " \x7b"⟩ = none := by
    rw [String.append_assoc]
    exact OpenNone.cons (by decide) openNone_nil _ List.mem_cons_self
  have hbody : OpenNone (traitLines provider).tail.tail :=
    show OpenNone (traitLines "").tail.tail by
      unfold OpenNone
      decide
  exact List.forall_mem_cons.mpr ⟨by decide, List.forall_mem_cons.mpr ⟨htrait, hbody⟩⟩

theorem Struct.IsReadable.allStandAt_lines {struct : Struct} (h : struct.IsReadable) {provider : String}
    (hprovider : IsNameText provider) : AllStandAt 1 (struct.lines provider) := by
  have hcomment : BeginsFlush struct.comment := by
    unfold Struct.comment
    split
    · exact beginsFlush_ofList (by decide)
    · exact ((beginsFlush_ofList (by decide)).append _).append _
  have hopening : AllStandAt 1 [ blank, ⟨1, struct.comment⟩, ⟨1, "#[derive(Clone, Copy)]"⟩,
      ⟨1, "pub struct " ++ struct.name ++ "<'a> \x7b"⟩, ⟨2, "provider: &'a dyn " ++ provider ++ ","⟩, ⟨1, "\x7d"⟩,
      blank, ⟨1, "impl<'a> " ++ struct.name ++ "<'a> \x7b"⟩ ] :=
    .cons_blank <| .cons hcomment le_rfl <| .cons (beginsFlush_ofList (by decide)) le_rfl <|
      .cons (((beginsFlush_ofList (by decide)).append _).append _) le_rfl <|
      .cons (((beginsFlush_ofList (by decide)).append _).append _) (by decide) <|
      .cons (beginsFlush_ofList (by decide)) le_rfl <| .cons_blank <|
      .cons (((beginsFlush_ofList (by decide)).append _).append _) le_rfl allStandAt_nil
  exact (hopening.append ((h.allStandAt_parted hprovider).mono (by decide))).append
    (.cons (beginsFlush_ofList (by decide)) le_rfl allStandAt_nil)

/-- The lines of structs that can be read back do so one struct after the other. -/
theorem readStructs_flatMap {provider : String} (hprovider : IsNameText provider) (rest : List Line) :
    ∀ {structs : List Struct}, (∀ struct ∈ structs, struct.IsReadable) →
    readStructs (structs.flatMap (Struct.lines provider) ++ rest) =
      structs.map (Struct.shown provider) ++ readStructs rest
  | [], _ => rfl
  | struct :: structs, h => by
    obtain ⟨hstruct, hstructs⟩ := List.forall_mem_cons.mp h
    rw [List.flatMap_cons, List.append_assoc, hstruct.readStructs_lines hprovider,
      readStructs_flatMap hprovider rest hstructs]
    rfl

/-- What stands in front of the structs of a module. -/
def Module.frontLines (m : Module) : List Line :=
  [ header,
    blank,
    openingLine m.name,
    ⟨1, "#![allow(dead_code, non_camel_case_types, clippy::all)]"⟩,
    blank ] ++
  traitLines m.provider

theorem allStandAt_frontLines (m : Module) : AllStandAt 0 m.frontLines := by
  refine AllStandAt.append ?_ ((allStandAt_traitLines m.provider).mono (by decide))
  exact .cons (((beginsFlush_ofList (by decide)).append _).append _) le_rfl <| .cons_blank <|
    .cons (((beginsFlush_ofList (by decide)).append _).append _) le_rfl <|
    .cons (beginsFlush_ofList (by decide)) (by decide) <| .cons_blank allStandAt_nil

theorem openNone_frontLines (m : Module) : OpenNone m.frontLines := by
  refine OpenNone.append ?_ (openNone_traitLines m.provider)
  exact .cons_of_ne (show 0 ≠ 1 by decide) <| .cons_of_ne (by decide) <| .cons_of_ne (show 0 ≠ 1 by decide) <|
    List.forall_mem_cons.mpr ⟨by decide, OpenNone.cons_of_ne (by decide) openNone_nil⟩

/-- **The lines of a module read back to its structs**, where they can be read back. -/
theorem readStructs_renderLines {m : Module} (hnames : m.HasNameTexts) (h : ∀ struct ∈ m.structs, struct.IsReadable) :
    readStructs (readLines isLineFeed (renderLines m.lines)) = m.structs.map (Struct.shown m.provider) := by
  have hlines : m.lines = m.frontLines ++ m.structs.flatMap (Struct.lines m.provider) ++ [⟨0, "\x7d"⟩] := rfl
  have hstructs : AllStandAt 0 (m.structs.flatMap (Struct.lines m.provider)) := by
    intro line hmem
    obtain ⟨struct, hstruct, hline⟩ := List.mem_flatMap.mp hmem
    exact ((h struct hstruct).allStandAt_lines hnames.provider).mono (by decide) line hline
  have hstand : AllStandAt 0 m.lines := by
    rw [hlines]
    exact ((allStandAt_frontLines m).append hstructs).append
      (.cons (beginsFlush_ofList (by decide)) le_rfl allStandAt_nil)
  have hlast : OpenNone [⟨0, "\x7d"⟩, blank] := .cons_of_ne (by decide) <| .cons_of_ne (by decide) openNone_nil
  have hnone : readStructs [⟨0, "\x7d"⟩, blank] = [] := readStructs_append hlast []
  rw [readLines_renderLines (by decide) (by decide) hnames.allLack_lines hstand, hlines, List.append_assoc,
    List.append_assoc, readStructs_append (openNone_frontLines m), List.singleton_append,
    readStructs_flatMap hnames.provider _ h, hnone, List.append_nil]

/-- The structs that are planned for a document follow the plan for its sections. -/
theorem plan_follows (options : Options) (types : Scope) (root : Section) :
    ∃ struct inner, (Module.plan options types root).1.structs = struct :: inner ∧ struct.Follows true root ∧
      List.Forall₂ (Struct.Follows false) (Section.walkAccessors root.accessors) inner :=
  planStructs_follows root (claimRoot options types).1 "" true (claimRoot options types).2

/-- Each of them follows the plan for one of the sections. -/
theorem exists_follows {options : Options} {types : Scope} {root : Section} {struct : Struct}
    (h : struct ∈ (Module.plan options types root).1.structs) : ∃ isRoot, ∃ s ∈ root.walk, struct.Follows isRoot s := by
  obtain ⟨first, inner, hstructs, hfirst, hinner⟩ := plan_follows options types root
  rw [hstructs] at h
  rw [walk_eq]
  rcases List.mem_cons.mp h with rfl | h
  · exact ⟨true, root, List.mem_cons_self, hfirst⟩
  · obtain ⟨s, hs, hfollows⟩ := exists_mem_of_forall₂ hinner.flip struct h
    exact ⟨false, s, List.mem_cons_of_mem root hs, hfollows⟩

/-- **The text of a module reads back to the structs that are planned for its document**, whichever type names are in
use before. -/
theorem readStructs_plan (options : Options) {types : Scope} {root : Section} (htypes : IsNameText types.separator)
    (hroot : root.HasWellFormedNames) :
    readStructs (readLines isLineFeed (Module.plan options types root).1.text) =
      (Module.plan options types root).1.structs.map (Struct.shown (Module.plan options types root).1.provider) := by
  have hnames := plan_names options htypes hroot
  refine readStructs_renderLines hnames fun struct hmem => ?_
  obtain ⟨isRoot, s, hs, hfollows⟩ := exists_follows hmem
  exact hfollows.isReadable (hroot s hs) (hnames.structs struct hmem)

/-- The structs that a text reads back to are there one for every section, in the order of the sections. -/
theorem readStructs_source (options : Options) {root : Section} (hroot : root.HasWellFormedNames) :
    ∃ provider structs, readStructs (readLines isLineFeed (source options root)) = structs.map (Struct.shown provider) ∧
      List.Forall₂ (fun s struct => struct.Follows struct.isRoot s) root.walk structs := by
  obtain ⟨struct, inner, hstructs, hfirst, hinner⟩ := plan_follows options (Scope.empty "") root
  have htext : source options root = (Module.plan options (Scope.empty "") root).1.text := String.empty_append
  have hempty : IsNameText (Scope.empty "").separator := isNameText_ofList rfl
  refine ⟨_, _, htext ▸ readStructs_plan options hempty hroot, ?_⟩
  rw [hstructs, walk_eq]
  refine .cons (hfirst.isRoot ▸ hfirst) (hinner.imp fun s struct h => ?_)
  exact h.isRoot ▸ h

end TypedSettings.Structs
