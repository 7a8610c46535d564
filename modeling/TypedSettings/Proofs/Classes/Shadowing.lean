import TypedSettings.Proofs.Classes.Reading
import TypedSettings.Proofs.Schema.Levels

/-!
# Names that classes take for granted

The code in a class uses names from outside: its field and its constructor have the type of the configuration, and the
value of a number is read with the help of two more types. Nothing keeps these names free. A class is called like the
type of the configuration, or has a property that hides one of the two types from its numbers, just where the options or
the keys ask for it (`keepsNames_source_iff`):

* `exists_member_iff`: a property has a name without digits just where the name is free and an identifier asks for it;
* `keepsNames_planClass_iff`: what this says about the class of a section;
* `keepsNames_iff_of_comesFrom`: what it says in terms of the object that the section comes from.
-/

namespace TypedSettings

open Text

/-! ## Names without digits -/

namespace Scope

variable {scope : Scope} {wanted name : String}

/-- A name without digits is given out just when it is wanted and free. -/
theorem freeName_eq_iff (hname : Lacks Char.isDigit name) :
    scope.freeName wanted = name ↔ wanted = name ∧ scope.holds name = false := by
  cases h : scope.holds wanted with
  | false =>
    rw [freeName_of_holds_eq_false h]
    exact ⟨fun heq => ⟨heq, heq ▸ h⟩, And.left⟩
  | true =>
    obtain ⟨k, -, -, heq, -, -⟩ := freeName_spec h
    refine iff_of_false ?_ ?_
    · rintro rfl
      rw [heq] at hname
      exact not_lacks_append_right _ (not_lacks_isDigit_toString k) hname
    · rintro ⟨rfl, hfree⟩
      exact absurd h (ne_true_of_eq_false hfree)

theorem holds_reserve_eq_false_iff :
    (scope.reserve wanted).holds name = false ↔ wanted ≠ name ∧ scope.holds name = false := by
  rw [← Bool.not_eq_true, holds_reserve, not_or, Bool.not_eq_true, ne_comm]

end Scope

/-! ## Numbers -/

/-- Whether a value is a number. -/
def Value.isNumber : Value → Bool
  | .integer _ => true
  | .float _ => true
  | _ => false

/-- Whether a number is accessed. -/
def Access.isNumber : Access → Bool
  | .scalar .integer => true
  | .scalar .float => true
  | _ => false

theorem exposes_of_isNumber {onNull : OnNull} {value : Value} (h : value.isNumber = true) :
    onNull.exposes value = true := by
  cases value with
  | null => cases h
  | _ => cases onNull <;> rfl

theorem ReadAs.isNumber_iff {onNull : OnNull} {value : Value} {access : Access}
    (h : ReadAs onNull value access.category) : access.isNumber = true ↔ value.isNumber = true := by
  cases access with
  | scalar kind => cases kind <;> cases h <;> exact Iff.rfl
  | list =>
    cases h
    exact Iff.rfl
  | nested child =>
    cases h
    exact Iff.rfl

namespace Classes

/-! ## Names that are taken for granted -/

/-- The type of the configuration, which the field and the constructor of every class name. -/
def configurationType : String := "IConfiguration"

/-- The types that the value of a number names. -/
def numberTypes : List String := ["NumberStyles", "CultureInfo"]

/-- Whether a property is read as a number. -/
def ReadProperty.isNumber (property : ReadProperty) : Bool := property.type == "int" || property.type == "double"

/-- A class keeps the names that it takes for granted: it is not called like the type of the configuration, and no
property hides the types that the value of a number names. -/
structure ReadClass.KeepsNames (c : ReadClass) : Prop where
  name : c.name ≠ configurationType
  properties : (∃ property ∈ c.properties, property.isNumber = true) →
    ∀ property ∈ c.properties, property.name ∉ numberTypes

/-- A name is neither a numbered one nor that of a class inside: it has no digit, and not the fixed end of such names. -/
structure IsOwnName (name : String) : Prop where
  lacks : Lacks Char.isDigit name
  settings : ¬"Settings".toList ⊆ name.toList

theorem isOwnName_of_mem_numberTypes : ∀ type ∈ numberTypes, IsOwnName type := by
  refine List.forall_mem_cons.mpr ⟨⟨by decide, by decide⟩, List.forall_mem_singleton.mpr ⟨by decide, by decide⟩⟩

/-! ## Properties of a class -/

/-- The class inside takes no such name. -/
theorem holds_planGives {name : String} (hname : IsOwnName name) (property : String) (scope : Scope) (access : Access) :
    (planGives property scope access).2.holds name = scope.holds name := by
  cases access with
  | scalar kind => rfl
  | list => rfl
  | nested child =>
    obtain ⟨type, typed, htype⟩ : ∃ type typed, scope.claim (property ++ "Settings") = (type, typed) := ⟨_, _, rfl⟩
    have hne : name ≠ type := fun heq => hname.settings (heq ▸ settings_subset_claim htype)
    have htyped : typed.holds name = true ↔ name = type ∨ scope.holds name = true := by
      have hgrows := (scope.grows_claim (property ++ "Settings")).holds name
      rwa [htype, List.mem_singleton] at hgrows
    rw [planGives, htype, Bool.eq_iff_iff, htyped]
    exact or_iff_right hne

/-- **A property has such a name just where the name is free and an identifier asks for it.** -/
theorem exists_member_iff {name : String} (hname : IsOwnName name) : ∀ (accessors : List Accessor) (scope : Scope),
    (∃ member ∈ planMembers scope accessors, member.name = name) ↔
      scope.holds name = false ∧ ∃ accessor ∈ accessors, accessor.identifier.text = name
  | [], scope => by simp [planMembers]
  | accessor :: accessors, scope => by
    have hclaim : scope.claim accessor.identifier.text =
        (scope.freeName accessor.identifier.text, scope.reserve (scope.freeName accessor.identifier.text)) := rfl
    have ih := exists_member_iff hname accessors (planGives (scope.freeName accessor.identifier.text)
      (scope.reserve (scope.freeName accessor.identifier.text)) accessor.access).2
    rw [holds_planGives hname, Scope.holds_reserve_eq_false_iff] at ih
    rw [planMembers_cons accessor accessors hclaim, List.exists_mem_cons_iff, List.exists_mem_cons_iff, ih]
    exact given_or_behind_iff (Scope.freeName_eq_iff hname.lacks)

/-- The names that are kept from the members of a class are its own and that of its indexer. -/
theorem holds_memberScope_eq_false_iff {type : String} (htype : type ∈ numberTypes) (name : String) (hasIndexer : Bool) :
    (memberScope name hasIndexer).holds type = false ↔ name ≠ type := by
  have hindexer : indexerName ≠ type := by
    rintro rfl
    exact absurd htype (by decide)
  have hempty : (Scope.empty "").holds type = false := rfl
  cases hasIndexer with
  | false => simp [memberScope, Scope.holds_reserve_eq_false_iff, hempty]
  | true => simp [memberScope, Scope.holds_reserve_eq_false_iff, hempty, hindexer]

/-- A property is read as a number just where a number is accessed. -/
theorem Member.Serves.isNumber_iff {accessor : Accessor} {member : Member} (h : member.Serves accessor) :
    accessor.access.isNumber = true ↔ member.shown.isNumber = true := by
  obtain ⟨name, address, isCommented, gives⟩ := member
  obtain ⟨identifier, key, place, access⟩ := accessor
  obtain ⟨-, hgives⟩ := h
  cases hgives with
  | scalar kind => cases kind <;> exact Iff.rfl
  | list => exact Iff.rfl
  | @nested child type hsettings =>
    -- the name of a class is longer than the names of the types of numbers
    have hshort : ∀ word ∈ ["int", "double"], ¬"Settings".toList ⊆ word.toList := by decide
    have hne : ∀ word ∈ ["int", "double"], type ≠ word := fun word hmem heq => hshort word hmem (heq ▸ hsettings)
    have htype : (Gives.object (planClass type child)).type = type := name_planClass type child
    refine iff_of_false Bool.false_ne_true ?_
    rw [Member.shown, ReadProperty.isNumber, htype, beq_false_of_ne (hne "int" (by decide)),
      beq_false_of_ne (hne "double" (by decide))]
    exact Bool.false_ne_true

/-- When no property hides the types of numbers. -/
theorem forall_member_iff (name : String) (s : Section) :
    (∀ member ∈ planMembers (memberScope name s.hasLookup) s.accessors, member.name ∉ numberTypes) ↔
      ∀ type ∈ numberTypes, (∃ accessor ∈ s.accessors, accessor.identifier.text = type) → name = type := by
  have hmember : ∀ type ∈ numberTypes,
      (∃ member ∈ planMembers (memberScope name s.hasLookup) s.accessors, member.name = type) ↔
        name ≠ type ∧ ∃ accessor ∈ s.accessors, accessor.identifier.text = type := by
    intro type htype
    rw [exists_member_iff (isOwnName_of_mem_numberTypes type htype), holds_memberScope_eq_false_iff htype]
  constructor
  · intro hfree type htype hasks
    by_contra hne
    obtain ⟨member, hmem, rfl⟩ := (hmember type htype).mpr ⟨hne, hasks⟩
    exact hfree member hmem htype
  · intro hfree member hmem htype
    obtain ⟨hne, hasks⟩ := (hmember _ htype).mp ⟨member, hmem, rfl⟩
    exact hne (hfree _ htype hasks)

/-- **When the class of a section keeps its names.** -/
theorem keepsNames_planClass_iff (name : String) (s : Section) : (planClass name s).shown.KeepsNames ↔
    name ≠ configurationType ∧ ((∃ accessor ∈ s.accessors, accessor.access.isNumber = true) →
      ∀ type ∈ numberTypes, (∃ accessor ∈ s.accessors, accessor.identifier.text = type) → name = type) := by
  have hserves := planMembers_serves s.accessors (memberScope name s.hasLookup)
  have hshown : (planClass name s).shown = ⟨name,
      (planMembers (memberScope name s.hasLookup) s.accessors).map Member.shown,
      if s.hasLookup then [s.address.lookup] else []⟩ := by
    rw [planClass_eq]
    rfl
  rw [hshown, exists_mem_iff_of_forall₂ hserves fun _ _ h => h.isNumber_iff, ← forall_member_iff]
  constructor
  · intro h
    refine ⟨h.name, fun ⟨member, hmem, hmember⟩ other hother => ?_⟩
    exact h.properties ⟨_, List.mem_map_of_mem hmem, hmember⟩ other.shown (List.mem_map_of_mem hother)
  · intro h
    refine ⟨h.1, fun ⟨property, hmem, hproperty⟩ => ?_⟩
    obtain ⟨member, hmember, rfl⟩ := List.mem_map.mp hmem
    exact List.forall_mem_map.mpr (h.2 ⟨member, hmember, hproperty⟩)

/-! ## Documents -/

/-- The keys of an object ask for the name of a type that the value of a number names. -/
def AsksFor (onNull : OnNull) (members : List (String × Value)) (type : String) : Prop :=
  ∃ key ∈ keptKeys onNull members, (Identifier.ofKey key).text = type

/-- Where an object has a number, no key asks for the name of a type that the number needs; but the class of the root
may have this name itself, which keeps it from the properties. -/
def LeavesNames (options : Options) (object : Address × List (String × Value)) : Prop :=
  (∃ member ∈ object.2, member.2.isNumber = true) → ∀ type ∈ numberTypes, AsksFor options.onNull object.2 type →
    object.1 = .root ∧ (Identifier.ofKey options.rootType).text = type

section Documents

variable {options : Options} {value : Value} {schema : Schema}

/-- When the class of a section keeps its names, in terms of the object that the section comes from. -/
theorem keepsNames_iff_of_comesFrom {s : Section} {object : Address × List (String × Value)}
    (h : s.ComesFrom options object) (name : String) : (planClass name s).shown.KeepsNames ↔
      name ≠ configurationType ∧ ((∃ member ∈ object.2, member.2.isNumber = true) →
        ∀ type ∈ numberTypes, AsksFor options.onNull object.2 type → name = type) := by
  obtain ⟨depth, accessors, notices, rfl, hpass⟩ := h
  have hnumber : (∃ accessor ∈ accessors, accessor.access.isNumber = true) ↔
      ∃ member ∈ object.2, member.2.isNumber = true := by
    rw [exists_mem_iff_of_forall₂ hpass.exposes fun _ _ h => h.access.isNumber_iff]
    constructor
    · rintro ⟨member, hmem, hmember⟩
      exact ⟨member, List.mem_of_mem_filter hmem, hmember⟩
    · rintro ⟨member, hmem, hmember⟩
      exact ⟨member, List.mem_filter.mpr ⟨hmem, exposes_of_isNumber hmember⟩, hmember⟩
  have hasks : ∀ type ∈ numberTypes,
      (∃ accessor ∈ accessors, accessor.identifier.text = type) ↔ AsksFor options.onNull object.2 type := by
    intro type htype
    have hlacks : Lacks Char.isDigit (Identifier.mk type).text := (isOwnName_of_mem_numberTypes type htype).lacks
    have htext : ∀ identifier : Identifier, identifier.text = type ↔ identifier = ⟨type⟩ := fun ⟨text⟩ => by
      rw [Identifier.mk.injEq]
    simp only [AsksFor, htext]
    rw [hpass.exists_identifier_iff hlacks]
    exact and_iff_right rfl
  rw [keepsNames_planClass_iff]
  refine and_congr_right' (imp_congr hnumber (forall₂_congr fun type htype => imp_congr (hasks type htype) Iff.rfl))

/-- The class of the root keeps its names just where it is not called like the type of the configuration, and the object
leaves its names. -/
theorem keepsNames_root_iff {s : Section} {members : List (String × Value)} (h : s.ComesFrom options (.root, members)) :
    (Class.plan options s).shown.KeepsNames ↔
      (Identifier.ofKey options.rootType).text ≠ configurationType ∧ LeavesNames options (.root, members) := by
  rw [Class.plan, keepsNames_iff_of_comesFrom h, LeavesNames]
  simp only [true_and]

/-- A class inside keeps its names just where its object leaves them: no class inside has one of these names. -/
theorem keepsNames_inside_iff {s : Section} {c : Class} {object : Address × List (String × Value)} (hc : c.IsInside s)
    (h : s.ComesFrom options object) (hne : object.1 ≠ .root) :
    c.shown.KeepsNames ↔ LeavesNames options object := by
  have hsettings : ∀ name, ¬"Settings".toList ⊆ name.toList → c.name ≠ name := fun name hname heq =>
    hname (heq ▸ hc.name)
  have hconfiguration : c.name ≠ configurationType := hsettings _ (by decide)
  have htypes : ∀ type ∈ numberTypes, (c.name = type ↔
      object.1 = .root ∧ (Identifier.ofKey options.rootType).text = type) := fun type htype =>
    iff_of_false (hsettings type (isOwnName_of_mem_numberTypes type htype).settings) fun h => hne h.1
  rw [hc.eq, keepsNames_iff_of_comesFrom h, and_iff_right hconfiguration, LeavesNames]
  exact imp_congr Iff.rfl (forall₂_congr fun type htype => imp_congr Iff.rfl (htypes type htype))

/-- **Classes keep the names that they take for granted just where the options and the keys leave them.** -/
theorem keepsNames_source_iff (htarget : options.target = .csharp) (h : Schema.ofValue options value = .ok schema) :
    ((∀ c ∈ readClasses (readLines isLineFeed (schema.source options)), c.KeepsNames) ↔
      (Identifier.ofKey options.rootType).text ≠ configurationType ∧
        ∀ object ∈ value.objects .root, LeavesNames options object) ∧
    (HasOneLineKeys options.onNull value →
      readLines endsLine (schema.source options) = readLines isLineFeed (schema.source options)) := by
  have hnames := hasWellFormedNames_of_ofValue h
  have hcomments := each_hasOneLineComment_iff h
  obtain ⟨members, rfl⟩ := exists_object h
  obtain ⟨accessors, hroot, hpass⟩ := exists_pass h
  rw [source_eq htarget]
  refine ⟨?_, fun hkeys => readLines_endsLine options hnames (hcomments.mpr hkeys)⟩
  have hplanned := planClass_isInside schema.root (Identifier.ofKey options.rootType).text
  rw [hroot] at hplanned ⊢
  have hinside := forall_mem_iff_of_forall₂ hplanned hpass.forall₂_comesFrom
    fun s c object hc ⟨hcomes, hne⟩ => keepsNames_inside_iff hc hcomes hne
  rw [readClasses_source options (hroot ▸ hnames), List.forall_mem_map, Class.plan, walk_planClass, List.forall_mem_cons,
    hinside, ← Class.plan, keepsNames_root_iff ⟨_, _, _, rfl, hpass⟩, Value.objects, List.forall_mem_cons, and_assoc]

/-- The hypotheses are met by a document with keys like the types of numbers: they stand beside no number, or in the root
under the same name. -/
theorem keepsNames_source_iff_apart : ∃ schema,
    Schema.ofValue { target := .csharp, rootType := "culture info" }
      (.object [("a", .object [("number.styles", .null), ("NumberStyles2", .integer 1)]), ("culture-info", .integer 2)]) =
      .ok schema ∧
    ∀ c ∈ readClasses (readLines isLineFeed (schema.source { target := .csharp, rootType := "culture info" })),
      c.KeepsNames := by
  refine exists_of_isOk (by decide) fun schema h => (keepsNames_source_iff rfl h).1.mpr ⟨by decide, ?_⟩
  unfold LeavesNames AsksFor
  decide

/-- **A property hides a type from its own value, and a class the type of its own field**: the one for a key, the other
for an option. -/
theorem exists_not_keepsNames :
    (∃ schema, Schema.ofValue { target := .csharp } (.object [("NumberStyles", .integer 1)]) = .ok schema ∧
      readClasses (readLines isLineFeed (schema.source { target := .csharp })) =
        [⟨"AppSettings", [⟨"int", "NumberStyles", some (.literal "NumberStyles")⟩], []⟩] ∧
      ¬∀ c ∈ readClasses (readLines isLineFeed (schema.source { target := .csharp })), c.KeepsNames) ∧
    ∃ schema, Schema.ofValue { target := .csharp, rootType := "IConfiguration" } (.object []) = .ok schema ∧
      readClasses (readLines isLineFeed (schema.source { target := .csharp, rootType := "IConfiguration" })) =
        [⟨"IConfiguration", [], []⟩] ∧
      ¬∀ c ∈ readClasses (readLines isLineFeed
        (schema.source { target := .csharp, rootType := "IConfiguration" })), c.KeepsNames := by
  constructor
  · refine exists_of_isOk (by decide) fun schema h => ?_
    have hplan : (Class.plan { target := .csharp } schema.root).walk.map Class.shown =
        [⟨"AppSettings", [⟨"int", "NumberStyles", some (.literal "NumberStyles")⟩], []⟩] := by
      apply eq_of_toOption_map_eq h
      decide +kernel
    rw [source_eq rfl, readClasses_source _ (hasWellFormedNames_of_ofValue h), hplan]
    refine ⟨rfl, fun hkeeps => ?_⟩
    exact (hkeeps _ List.mem_cons_self).properties ⟨_, List.mem_cons_self, rfl⟩ _ List.mem_cons_self
      List.mem_cons_self
  · refine exists_of_isOk (by decide) fun schema h => ?_
    have hplan : (Class.plan { target := .csharp, rootType := "IConfiguration" } schema.root).walk.map Class.shown =
        [⟨"IConfiguration", [], []⟩] := by
      apply eq_of_toOption_map_eq h
      decide +kernel
    rw [source_eq rfl, readClasses_source _ (hasWellFormedNames_of_ofValue h), hplan]
    exact ⟨rfl, fun hkeeps => (hkeeps _ List.mem_cons_self).name rfl⟩

end Documents

end Classes

end TypedSettings
