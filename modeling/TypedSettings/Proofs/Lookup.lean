import TypedSettings.Proofs.Classes.MemberNames
import TypedSettings.Proofs.Structs.Reading

/-!
# Lookups and accessors

In either language a section with a lookup by raw key can be asked for a key in two ways: by the lookup, and by the
accessor of the key if it has one. Both ask at the text of the address of the key's child (`Section.IsReadAs`), although
the two languages tell the root by different tests and put the path together from different literals.

* `Structs.Struct.Follows.isReadAs`, `Classes.planClass_isReadAs`: the struct and the class that are planned for a section
  read so;
* `source_isReadAs`: so do the texts of a document in both languages, whatever its keys are, between their line feeds;
  and so does the text with the classes line by line, as its language ends lines, where no key in a comment ends one;
* `source_misread`: where a key does, the class around it can end before the lookup.
-/

namespace TypedSettings

open Text

/-! ## What a text shows of a section -/

/-- What generated code shows of a section: at which paths its lookups by raw key ask, and at which its accessors, each
of which asks at one path or none. -/
structure Reading where
  lookups : List PathExpression
  accessors : List (Option PathExpression)
  deriving DecidableEq, Repr

/-- Whether a method is the lookup by raw key. -/
def Structs.ReadMethod.isLookup (method : ReadMethod) : Bool :=
  method.name == lookupName && method.parameters == lookupParameters

/-- Whether a method takes nothing but the struct. -/
def Structs.ReadMethod.isAccessor (method : ReadMethod) : Bool := method.parameters == "&self"

/-- What a struct shows of its section. -/
def Structs.ReadStruct.reading (struct : ReadStruct) : Reading where
  lookups := (struct.methods.filter ReadMethod.isLookup).filterMap ReadMethod.asks?
  accessors := (struct.methods.filter ReadMethod.isAccessor).map ReadMethod.asks?

/-- What a class shows of its section. -/
def Classes.ReadClass.reading (c : ReadClass) : Reading where
  lookups := c.indexers
  accessors := c.properties.map ReadProperty.asks?

/-- What lines in a language show of the sections, in their order. -/
def readings : Target → List Line → List Reading
  | .rust, lines => (Structs.readStructs lines).map Structs.ReadStruct.reading
  | .csharp, lines => (Classes.readClasses lines).map Classes.ReadClass.reading

/-! ## How a section is to be read -/

/-- An accessor in a section at `level` stands at the address of its key's child, and so does a section that it
gives. -/
structure Accessor.StandsIn (level : Address) (accessor : Accessor) : Prop where
  address : accessor.address = level.child accessor.key
  nested : ∀ child, accessor.access.nested? = some child → child.address = accessor.address

/-- An accessor asks where a lookup of its key does, which is at its own address; one that gives a section asks
nowhere. -/
structure Accessor.IsReadAs (level : Address) (accessor : Accessor) (asks? : Option PathExpression) : Prop
    extends accessor.StandsIn level where
  isSome : asks?.isSome = !accessor.access.isNested
  path : ∀ e, asks? = some e → ∀ key, e.path key = (level.child accessor.key).text

/-- A section with a lookup has one, which asks for every key at the address of the key's child. -/
structure Section.IsReadAs (s : Section) (reading : Reading) : Prop where
  length : reading.lookups.length = if s.hasLookup then 1 else 0
  path : ∀ e ∈ reading.lookups, ∀ key, e.path key = (s.address.child key).text
  accessors : List.Forall₂ (Accessor.IsReadAs s.address) s.accessors reading.accessors

theorem Accessor.Exposes.standsIn {onNull : OnNull} {level : Address} {accessor : Accessor} {member : String × Value}
    (h : accessor.Exposes onNull level member) : accessor.StandsIn level :=
  ⟨h.key ▸ h.address, h.nested⟩

/-- Every accessor of a schema stands in its section. -/
theorem standsIn_of_ofValue {options : Options} {value : Value} {schema : Schema}
    (h : Schema.ofValue options value = .ok schema) :
    ∀ s ∈ schema.root.walk, ∀ accessor ∈ s.accessors, accessor.StandsIn s.address := by
  obtain ⟨members, rfl⟩ := exists_object h
  intro s hs accessor haccessor
  obtain ⟨object, -, hmirrors⟩ := exists_mem_of_forall₂ (forall₂_mirrors h) s hs
  obtain ⟨member, -, hexposes⟩ := exists_mem_of_forall₂ hmirrors.accessors accessor haccessor
  exact hexposes.standsIn

/-- The lookup that code has for a section, if it has one, asks where it is to. -/
theorem Section.isReadAs_lookup {s : Section} {asks : List (Option PathExpression)}
    (h : List.Forall₂ (Accessor.IsReadAs s.address) s.accessors asks) :
    s.IsReadAs ⟨if s.hasLookup then [s.address.lookup] else [], asks⟩ := by
  refine ⟨?_, fun e he key => ?_, h⟩
  · split <;> rfl
  · split at he
    · rw [List.mem_singleton.mp he]
      exact s.address.path_lookup key
    · cases he

/-- A literal of an address asks there whatever key is given. -/
theorem Accessor.StandsIn.isReadAs_literal {level : Address} {accessor : Accessor} (h : accessor.StandsIn level)
    (hleaf : accessor.access.nested? = none) :
    accessor.IsReadAs level (some (.literal accessor.address.text)) := by
  refine ⟨h, ?_, fun e he key => ?_⟩
  · rw [Access.isNested, hleaf]
    rfl
  · rw [← Option.some.inj he, ← h.address, PathExpression.path]

theorem Accessor.StandsIn.isReadAs_none {level : Address} {accessor : Accessor} (h : accessor.StandsIn level)
    {child : Section} (hnested : accessor.access.nested? = some child) : accessor.IsReadAs level none := by
  refine ⟨h, ?_, fun e he => by cases he⟩
  rw [Access.isNested, hnested]
  rfl

/-! ## Structs -/

namespace Structs

theorem Method.Serves.isReadAs {level : Address} {accessor : Accessor} {method : Method} (h : method.Serves accessor)
    (hstands : accessor.StandsIn level) : accessor.IsReadAs level (method.gives.asks? method.address) := by
  obtain ⟨name, address, gives⟩ := method
  obtain ⟨identifier, key, place, access⟩ := accessor
  obtain ⟨rfl, hgives⟩ := h
  cases hgives with
  | scalar kind => exact hstands.isReadAs_literal rfl
  | list => exact hstands.isReadAs_literal rfl
  | nested child type => exact hstands.isReadAs_none rfl

/-- The method that makes a struct is neither a lookup nor an accessor. -/
theorem isAccessor_make (provider : String) :
    ReadMethod.isAccessor ⟨makeName, "provider: &'a dyn " ++ provider, none⟩ = false := by
  have hhead : ("provider: &'a dyn " ++ provider).toList.head? = some 'p' := by
    rw [String.toList_append]
    rfl
  refine beq_false_of_ne fun h => ?_
  have hhead' : ("provider: &'a dyn " ++ provider).toList.head? = some '&' := congrArg (·.toList.head?) h
  exact absurd (hhead.symm.trans hhead') (by decide)

/-- A struct shows its lookup and its accessors. -/
theorem reading_shown (provider : String) (struct : Struct) : (struct.shown provider).reading =
    ⟨if struct.hasLookup then [struct.address.lookup] else [],
      struct.methods.map fun method => method.gives.asks? method.address⟩ := by
  obtain ⟨name, isRoot, address, methods, hasLookup⟩ := struct
  have hlookups : (methods.map Method.shown).filter ReadMethod.isLookup = [] := by
    refine List.filter_eq_nil_iff.mpr (List.forall_mem_map.mpr fun method _ => ?_)
    rw [ReadMethod.isLookup, Bool.and_eq_true_iff, not_and_or]
    exact Or.inr (show ¬("&self" == lookupParameters) = true by decide)
  have haccessors : (methods.map Method.shown).filter ReadMethod.isAccessor = methods.map Method.shown :=
    List.filter_eq_self.mpr (List.forall_mem_map.mpr fun method _ => beq_self_eq_true "&self")
  have hasks : (methods.map Method.shown).map ReadMethod.asks? =
      methods.map fun method => method.gives.asks? method.address := List.map_map
  have hfront : ∀ make : ReadMethod, make.isLookup = false → make.isAccessor = false →
      (if isRoot then [make] else []).filter ReadMethod.isLookup = [] ∧
        (if isRoot then [make] else []).filter ReadMethod.isAccessor = [] := by
    intro make hlookup haccessor
    cases isRoot with
    | false => exact ⟨rfl, rfl⟩
    | true => exact ⟨List.filter_cons_of_neg (ne_true_of_eq_false hlookup),
        List.filter_cons_of_neg (ne_true_of_eq_false haccessor)⟩
  obtain ⟨hfrontLookups, hfrontAccessors⟩ := hfront _ rfl (isAccessor_make provider)
  rw [ReadStruct.reading, Struct.shown]
  simp only [List.filter_append, hlookups, haccessors, hfrontLookups, hfrontAccessors, List.nil_append]
  cases hasLookup with
  | false => exact congrArg (Reading.mk []) ((congrArg _ (List.append_nil _)).trans hasks)
  | true => exact congrArg (Reading.mk [address.lookup]) ((congrArg _ (List.append_nil _)).trans hasks)

/-- **The structs that are planned for sections read as the sections are to be read.** -/
theorem Struct.Follows.isReadAs {isRoot : Bool} {s : Section} {struct : Struct} (h : struct.Follows isRoot s)
    (hstands : ∀ accessor ∈ s.accessors, accessor.StandsIn s.address) (provider : String) :
    s.IsReadAs (struct.shown provider).reading := by
  obtain ⟨chain, types, hmethods⟩ := h.methods
  obtain ⟨hserves, -⟩ := planMethods_spec chain s.accessors (methodScope struct.isRoot struct.hasLookup) types
  rw [reading_shown, h.hasLookup, h.address]
  refine Section.isReadAs_lookup (List.forall₂_map_right_iff.mpr ?_)
  rw [hmethods]
  exact ((List.forall₂_and_left _ _).mpr ⟨hstands, hserves⟩).imp
    fun accessor method ⟨hstandsIn, hservesIt⟩ => hservesIt.isReadAs hstandsIn

end Structs

/-! ## Classes -/

namespace Classes

theorem Member.Serves.isReadAs {level : Address} {accessor : Accessor} {member : Member} (h : member.Serves accessor)
    (hstands : accessor.StandsIn level) : accessor.IsReadAs level (member.gives.asks? member.address) := by
  obtain ⟨name, address, isCommented, gives⟩ := member
  obtain ⟨identifier, key, place, access⟩ := accessor
  obtain ⟨rfl, hgives⟩ := h
  cases hgives with
  | scalar kind => exact hstands.isReadAs_literal rfl
  | list => exact hstands.isReadAs_literal rfl
  | nested child _ => exact hstands.isReadAs_none rfl

/-- **The class that is planned for a section reads as the section is to be read.** -/
theorem planClass_isReadAs {s : Section} (hstands : ∀ accessor ∈ s.accessors, accessor.StandsIn s.address)
    (name : String) : s.IsReadAs (planClass name s).shown.reading := by
  have hserves := planMembers_serves s.accessors (memberScope name s.hasLookup)
  have hasks : (planClass name s).shown.reading.accessors =
      (planMembers (memberScope name s.hasLookup) s.accessors).map fun member => member.gives.asks? member.address := by
    rw [planClass_eq]
    exact List.map_map
  have hlookups : (planClass name s).shown.reading.lookups = if s.hasLookup then [s.address.lookup] else [] := by
    rw [planClass_eq]
    rfl
  have hread : (planClass name s).shown.reading = ⟨if s.hasLookup then [s.address.lookup] else [],
      (planMembers (memberScope name s.hasLookup) s.accessors).map fun member => member.gives.asks? member.address⟩ :=
    congrArg₂ Reading.mk hlookups hasks
  rw [hread]
  refine Section.isReadAs_lookup (List.forall₂_map_right_iff.mpr ?_)
  exact ((List.forall₂_and_left _ _).mpr ⟨hstands, hserves⟩).imp
    fun accessor member ⟨hstandsIn, hservesIt⟩ => hservesIt.isReadAs hstandsIn

end Classes

/-! ## Documents -/

section Documents

variable {options : Options} {value : Value} {schema : Schema}

/-- The texts of a document read as its sections are to be read, in either language. -/
theorem forall₂_isReadAs (h : Schema.ofValue options value = .ok schema) (target : Target) :
    List.Forall₂ Section.IsReadAs schema.root.walk
      (readings target (readLines isLineFeed (schema.source { options with target := target }))) := by
  have hnames := Classes.hasWellFormedNames_of_ofValue h
  have hstands := standsIn_of_ofValue h
  cases target with
  | rust =>
    obtain ⟨provider, structs, hread, hfollow⟩ :=
      Structs.readStructs_source { options with target := .rust } hnames
    have htext : schema.source { options with target := .rust } =
        Structs.source { options with target := .rust } schema.root := rfl
    rw [htext, readings, hread, List.forall₂_map_right_iff, List.forall₂_map_right_iff]
    exact ((List.forall₂_and_left _ _).mpr ⟨hstands, hfollow⟩).imp
      fun s struct hboth => hboth.2.isReadAs hboth.1 provider
  | csharp =>
    have hroot := hstands schema.root (mem_walk_self schema.root)
    rw [Classes.source_eq rfl, readings, Classes.readClasses_source _ hnames, List.forall₂_map_right_iff,
      List.forall₂_map_right_iff, Classes.Class.plan, Classes.walk_planClass, walk_eq]
    refine .cons (Classes.planClass_isReadAs hroot _) ?_
    rw [walk_eq, List.forall_mem_cons] at hstands
    refine ((List.forall₂_and_left _ _).mpr ⟨hstands.2, Classes.planClass_isInside schema.root _⟩).imp ?_
    intro s c hboth
    rw [hboth.2.eq]
    exact Classes.planClass_isReadAs hboth.1 c.name

/-- **A lookup and an accessor ask at the same address, in both languages.** For every address the stem with a key
behind it is the text of the key's child, and only the stem of the root is empty. The texts read so between their line
feeds, which end all lines of the structs; and the classes do as their language ends lines, unless a key ends a
comment. -/
theorem source_isReadAs (h : Schema.ofValue options value = .ok schema) :
    (∀ (address : Address) (key : String), address.stem ++ key = (address.child key).text) ∧
    (∀ address : Address, address.stem.isEmpty = address.isRoot) ∧
    (∀ target, List.Forall₂ Section.IsReadAs schema.root.walk
      (readings target (readLines isLineFeed (schema.source { options with target := target })))) ∧
    (Classes.HasOneLineKeys options.onNull value → List.Forall₂ Section.IsReadAs schema.root.walk
      (readings .csharp (readLines Classes.endsLine (schema.source { options with target := .csharp })))) := by
  refine ⟨fun address key => (address.text_child key).symm, Address.isEmpty_stem, forall₂_isReadAs h, fun hkeys => ?_⟩
  have hcomments := (Classes.each_hasOneLineComment_iff h).mpr hkeys
  have hlines : readLines Classes.endsLine (schema.source { options with target := .csharp }) =
      readLines isLineFeed (schema.source { options with target := .csharp }) := by
    rw [Classes.source_eq rfl]
    exact Classes.readLines_endsLine _ (Classes.hasWellFormedNames_of_ofValue h) hcomments
  rw [hlines]
  exact forall₂_isReadAs h .csharp

/-- The hypotheses are met by a document with empty keys and keys with colons, all of whose sections have lookups. -/
theorem source_isReadAs_colon : ∃ schema,
    Schema.ofValue {} (.object [("", .integer 1), ("a:b", .object [("", .bool true), (":", .array [])])]) = .ok schema ∧
    Classes.HasOneLineKeys .skip (.object [("", .integer 1), ("a:b", .object [("", .bool true), (":", .array [])])]) ∧
    schema.root.walk.map Section.hasLookup = [true, true] ∧
    (∀ target, List.Forall₂ Section.IsReadAs schema.root.walk
      (readings target (readLines isLineFeed (schema.source { target := target })))) ∧
    List.Forall₂ Section.IsReadAs schema.root.walk
      (readings .csharp (readLines Classes.endsLine (schema.source { target := .csharp }))) := by
  have hkeys : Classes.HasOneLineKeys .skip
      (.object [("", .integer 1), ("a:b", .object [("", .bool true), (":", .array [])])]) := by
    unfold Classes.HasOneLineKeys
    decide
  refine exists_of_isOk (by decide) fun schema h =>
    ⟨hkeys, ?_, (source_isReadAs h).2.2.1, (source_isReadAs h).2.2.2 hkeys⟩
  apply eq_of_toOption_map_eq h
  decide

end Documents

/-! ## A class that ends early -/

namespace Classes

/-- A key that ends a class on a line of its own and begins another one. -/
def brokenKey : String := "\u2028\x7d\u2028class Other \x7bIConfiguration _configuration;//"

/-- The section of a document with this key only. -/
def broken : Section :=
  ⟨.root, 0, [⟨⟨"classOther_IConfigurationConfiguration"⟩, brokenKey, ⟨[brokenKey]⟩, .scalar .boolean⟩], true⟩

/-- The lines that are read between the braces of its class, the second one of which is in the key. -/
def brokenLines : List Line := constructorLines 1 "AppSettings" ++ [⟨1, "/// <summary>Configuration key: \""⟩]

theorem allStandAt_brokenLines : AllStandAt 1 brokenLines :=
  (allStandAt_constructorLines 1 _).append (.cons (beginsFlush_ofList (by decide)) le_rfl allStandAt_nil)

theorem noMembers_brokenLines : NoMembers brokenLines :=
  List.forall_mem_append.mpr ⟨noMembers_constructorLines 1 (by decide), NoMembers.cons (by decide) noMembers_nil⟩

theorem exists_readLines_broken : ∃ rest, readLines endsLine (source { target := .csharp } broken) =
    openingLines {} ++ (⟨0, "public class AppSettings"⟩ :: ⟨0, "\x7b"⟩ :: (brokenLines ++ ⟨0, "\x7d"⟩ :: rest)) := by
  have hcomment : ((commentLine 1 ⟨[brokenKey]⟩).indented.splitOnP endsLine).map readLine =
      [ ⟨1, "/// <summary>Configuration key: \""⟩,
        ⟨0, "\x7d"⟩,
        ⟨0, "class Other \x7bIConfiguration _configuration;//\"</summary>"⟩ ] := by
    decide
  have htext : source { target := .csharp } broken =
      renderLines (booleanLines "classOther_IConfigurationConfiguration" brokenKey [commentLine 1 ⟨[brokenKey]⟩]) := rfl
  rw [readLines_boolean (lacks_ofList (by decide)) htext, hcomment, booleanLines, brokenLines]
  simp only [List.append_assoc, List.cons_append, List.nil_append]
  exact ⟨_, rfl⟩

end Classes

/-- **A separator in a comment ends it, and what stands behind it is read as code**: the class of the document ends
before its lookup, which is then one of the class that the key begins. -/
theorem source_misread : ∃ schema,
    Schema.ofValue { target := .csharp } (.object [(Classes.brokenKey, .bool true)]) = .ok schema ∧
    schema.root.walk.map Section.hasLookup = [true] ∧
    ¬List.Forall₂ Section.IsReadAs schema.root.walk
      (readings .csharp (readLines Classes.endsLine (schema.source { target := .csharp }))) := by
  refine ⟨⟨Classes.broken, []⟩, rfl, rfl, fun hread => ?_⟩
  obtain ⟨rest, hlines⟩ := Classes.exists_readLines_broken
  obtain ⟨others, hblocks⟩ := Classes.exists_classBlocks_root Classes.allStandAt_brokenLines rest
  rw [Classes.source_eq rfl, hlines, readings, Classes.readClasses_eq_map, hblocks] at hread
  cases hread with
  | cons hfirst _ =>
    have hindexers : readAt Classes.indexer? 1 Classes.brokenLines = [] :=
      Classes.noMembers_brokenLines.readAt_eq_nil (fun _ h => h.2) 1
    have hlength : (readAt Classes.indexer? 1 Classes.brokenLines).length = 1 := hfirst.length
    rw [hindexers] at hlength
    cases hlength

end TypedSettings
