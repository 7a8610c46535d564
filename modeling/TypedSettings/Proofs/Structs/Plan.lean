import TypedSettings.Proofs.Identifier.NameText
import TypedSettings.Proofs.Text.Letters
import TypedSettings.Structs.Module

/-!
# Planned structs

`Planned isRoot s struct inner` says that a struct is planned for a section, with one method for every accessor, and the
structs `inner` for the sections inside it: for each accessor of a section the struct under the type name that its
method gives, and behind it those of the sections inside. `PlannedNested` has a rule for each kind of accessor.

* `planStructs_spec`: planning follows the rules, and gives out the type names once each;
* `Planned.forall₂_walk`: there is one struct for every section, in the order of the sections;
* `planStructs_names`: where the identifiers are well-formed, no name that is given out ends a line;
* `plan_spec`: what this says about a module.
-/

namespace TypedSettings.Structs

/-! ## The rules -/

/-- What a method gives for an access. -/
inductive Gives.Serves : Access → Gives → Prop
  | scalar (kind : Scalar) : Serves (.scalar kind) (.scalar kind)
  | list : Serves .list .list
  | nested (child : Section) (type : String) : Serves (.nested child) (.struct type)

/-- A method serves an accessor: it reads at the accessor's address, and gives what is accessed. -/
structure Method.Serves (accessor : Accessor) (method : Method) : Prop where
  address : method.address = accessor.address
  gives : Gives.Serves accessor.access method.gives

/-- A struct stands for a section. -/
structure Struct.StandsFor (isRoot : Bool) (s : Section) (struct : Struct) : Prop where
  isRoot : struct.isRoot = isRoot
  address : struct.address = s.address
  hasLookup : struct.hasLookup = s.hasLookup
  methods : List.Forall₂ Method.Serves s.accessors struct.methods

mutual

/-- The struct planned for a section, and those for the sections inside it. -/
inductive Planned : Bool → Section → Struct → List Struct → Prop
  | intro {isRoot : Bool} {s : Section} {struct : Struct} {inner : List Struct} : struct.StandsFor isRoot s →
      PlannedNested s.accessors struct.methods inner → Planned isRoot s struct inner

/-- The structs planned for the nested sections of a list of accessors with these methods. -/
inductive PlannedNested : List Accessor → List Method → List Struct → Prop
  | done : PlannedNested [] [] []
  | leaf {accessor : Accessor} {accessors : List Accessor} {method : Method} {methods : List Method}
      {structs : List Struct} : accessor.access.nested? = none → PlannedNested accessors methods structs →
      PlannedNested (accessor :: accessors) (method :: methods) structs
  | nested {accessor : Accessor} {child : Section} {accessors : List Accessor} {method : Method}
      {methods : List Method} {struct : Struct} {inner structs : List Struct} :
      accessor.access.nested? = some child → method.gives = .struct struct.name →
      Planned false child struct inner → PlannedNested accessors methods structs →
      PlannedNested (accessor :: accessors) (method :: methods) (struct :: inner ++ structs)

end

/-! ## Planning follows the rules -/

/-- The struct that a method gives, if it gives one. -/
def Method.type? (method : Method) : Option String :=
  match method.gives with
  | .struct type => some type
  | _ => none

/-- The methods of a list of accessors serve them, and the types that they give are given out. -/
theorem planMethods_spec (chain : String) : ∀ (accessors : List Accessor) (names types : Scope),
    List.Forall₂ Method.Serves accessors (planMethods chain names types accessors).1 ∧
      types.Grows ((planMethods chain names types accessors).1.filterMap Method.type?)
        (planMethods chain names types accessors).2
  | [], _, types => ⟨.nil, .refl types⟩
  | ⟨identifier, key, address, access⟩ :: accessors, names, types => by
    cases access with
    | scalar kind =>
      obtain ⟨hserves, hgrows⟩ := planMethods_spec chain accessors (names.claim (snakeCase identifier.text)).2 types
      exact ⟨.cons ⟨rfl, .scalar kind⟩ hserves, hgrows⟩
    | list =>
      obtain ⟨hserves, hgrows⟩ := planMethods_spec chain accessors (names.claim (snakeCase identifier.text)).2 types
      exact ⟨.cons ⟨rfl, .list⟩ hserves, hgrows⟩
    | nested child =>
      have hclaim := types.grows_claim (nestedTypeName chain identifier)
      obtain ⟨hserves, hgrows⟩ := planMethods_spec chain accessors (names.claim (snakeCase identifier.text)).2
        (types.claim (nestedTypeName chain identifier)).2
      exact ⟨.cons ⟨rfl, .nested child _⟩ hserves, hclaim.trans hgrows⟩

/-- Structs whose first names are given out already: the other names are given out in between. -/
def GivenOut (first : List String) (types : Scope) (structs : List Struct) (types' : Scope) : Prop :=
  ∃ others, (structs.map Struct.name).Perm (first ++ others) ∧ types.Grows others types'

theorem GivenOut.append {first first' : List String} {types types' types'' : Scope} {structs structs' : List Struct}
    (h : GivenOut first types structs types') (h' : GivenOut first' types' structs' types'') :
    GivenOut (first ++ first') types (structs ++ structs') types'' := by
  obtain ⟨others, hperm, hgrows⟩ := h
  obtain ⟨others', hperm', hgrows'⟩ := h'
  refine ⟨others ++ others', ?_, hgrows.trans hgrows'⟩
  rw [List.map_append, List.append_assoc]
  refine (hperm.append hperm').trans ?_
  rw [List.append_assoc]
  exact (List.perm_append_comm_assoc others first' others').append_left first

/-- The structs of a nested section come before those of the accessors behind. -/
theorem planNested_cons_nested (chain : String) (types : Scope) (name type key : String) (address address' : Address)
    (identifier : Identifier) (child : Section) (methods : List Method) (accessors : List Accessor) :
    (planNested chain types (⟨name, address, .struct type⟩ :: methods)
        (⟨identifier, key, address', .nested child⟩ :: accessors)).1 =
      (planStructs type (chain ++ identifier.text) false types child).1 ++
        (planNested chain (planStructs type (chain ++ identifier.text) false types child).2 methods accessors).1 := rfl

mutual

/-- **Planning follows the rules**, and gives out the names of all structs but the first. -/
theorem planStructs_spec : ∀ (s : Section) (name chain : String) (isRoot : Bool) (types : Scope),
    ∃ struct inner, (planStructs name chain isRoot types s).1 = struct :: inner ∧ struct.name = name ∧
      Planned isRoot s struct inner ∧
      GivenOut [name] types (struct :: inner) (planStructs name chain isRoot types s).2
  | ⟨address, depth, accessors, hasLookup⟩, name, chain, isRoot, types => by
    obtain ⟨hserves, hgrows⟩ := planMethods_spec chain accessors (methodScope isRoot hasLookup) types
    obtain ⟨hnested, others, hperm, hgrows'⟩ := planNested_spec accessors chain
      (planMethods chain (methodScope isRoot hasLookup) types accessors).2 hserves
    exact ⟨_, _, rfl, rfl, .intro ⟨rfl, rfl, rfl, hserves⟩ hnested, _, hperm.cons name, hgrows.trans hgrows'⟩

theorem planNested_spec : ∀ (accessors : List Accessor) {methods : List Method} (chain : String) (types : Scope),
    List.Forall₂ Method.Serves accessors methods →
    PlannedNested accessors methods (planNested chain types methods accessors).1 ∧
      GivenOut (methods.filterMap Method.type?) types (planNested chain types methods accessors).1
        (planNested chain types methods accessors).2
  | [], _, chain, types, .nil => ⟨.done, [], .nil, .refl types⟩
  | ⟨identifier, key, address, access⟩ :: accessors, ⟨name, _, gives⟩ :: methods, chain, types,
      .cons ⟨_, hserves⟩ hrest => by
    cases hserves with
    | scalar kind =>
      obtain ⟨hnested, hgiven⟩ := planNested_spec accessors chain types hrest
      exact ⟨.leaf rfl hnested, hgiven⟩
    | list =>
      obtain ⟨hnested, hgiven⟩ := planNested_spec accessors chain types hrest
      exact ⟨.leaf rfl hnested, hgiven⟩
    | nested child type =>
      obtain ⟨struct, inner, hstructs, rfl, hplanned, hgiven⟩ :=
        planStructs_spec child type (chain ++ identifier.text) false types
      obtain ⟨hnested, hgiven'⟩ := planNested_spec accessors chain
        (planStructs struct.name (chain ++ identifier.text) false types child).2 hrest
      rw [planNested_cons_nested, hstructs]
      exact ⟨.nested rfl rfl hplanned hnested, hgiven.append hgiven'⟩

end

/-! ## One struct for every section -/

mutual

/-- **There is one struct for every section**, in the order of the sections, and only the first one is the root's. -/
theorem Planned.forall₂_walk : ∀ {isRoot : Bool} {s : Section} {struct : Struct} {inner : List Struct},
    Planned isRoot s struct inner → struct.StandsFor isRoot s ∧
      List.Forall₂ (Struct.StandsFor false) (Section.walkAccessors s.accessors) inner
  | _, _, _, _, .intro hstands hnested => ⟨hstands, hnested.forall₂_walkAccessors⟩

theorem PlannedNested.forall₂_walkAccessors : ∀ {accessors : List Accessor} {methods : List Method}
    {structs : List Struct}, PlannedNested accessors methods structs →
    List.Forall₂ (Struct.StandsFor false) (Section.walkAccessors accessors) structs
  | _, _, _, .done => .nil
  | _, _, _, .leaf hleaf hrest => by
    rw [walkAccessors_cons, hleaf]
    exact hrest.forall₂_walkAccessors
  | _, _, _, .nested hchild _ hplanned hrest => by
    obtain ⟨hstands, hinner⟩ := hplanned.forall₂_walk
    rw [walkAccessors_cons, hchild, Option.elim_some, walk_eq]
    exact List.rel_append (.cons hstands hinner) hrest.forall₂_walkAccessors

end

/-! ## What the names are made of -/

theorem isWordChar_toLower {c : Char} (h : c.isUpper = true) : isWordChar c.toLower = true := by
  rw [isWordChar, Char.isAlphanum, Text.isAlpha_toLower (Text.isAlpha_iff.mpr (Or.inl h)), Bool.true_or]

theorem mem_snakeChars : ∀ {cs : List Char} {previous : Option Char} {c : Char}, c ∈ snakeChars previous cs →
    c = '_' ∨ ∃ d ∈ cs, c = d ∨ d.isUpper = true ∧ c = d.toLower
  | [], _, _, h => by cases h
  | d :: cs, previous, c, h => by
    have hbehind : c ∈ snakeChars (some d) cs → c = '_' ∨ ∃ e ∈ d :: cs, c = e ∨ e.isUpper = true ∧ c = e.toLower := by
      intro hmem
      rcases mem_snakeChars hmem with hc | ⟨e, he, hc⟩
      · exact Or.inl hc
      · exact Or.inr ⟨e, List.mem_cons_of_mem d he, hc⟩
    rw [snakeChars] at h
    split_ifs at h with hupper hbegins
    · rcases List.mem_cons.mp h with rfl | h
      · exact Or.inr ⟨c, List.mem_cons_self, Or.inl rfl⟩
      · exact hbehind h
    all_goals have hd : d.isUpper = true := by simpa using hupper
    · rcases List.mem_cons.mp h with hc | h
      · exact Or.inl hc
      · rcases List.mem_cons.mp h with hc | h
        · exact Or.inr ⟨d, List.mem_cons_self, Or.inr ⟨hd, hc⟩⟩
        · exact hbehind h
    · rcases List.mem_cons.mp h with hc | h
      · exact Or.inr ⟨d, List.mem_cons_self, Or.inr ⟨hd, hc⟩⟩
      · exact hbehind h

theorem isNameText_snakeCase {name : String} (h : IsNameText name) : IsNameText (snakeCase name) := by
  intro c hc
  rw [snakeCase, String.toList_ofList] at hc
  rcases mem_snakeChars hc with hc | ⟨d, hd, rfl | ⟨hupper, rfl⟩⟩
  · exact Or.inr hc
  · exact h c hd
  · exact Or.inl (isWordChar_toLower hupper)

theorem lacks_escaped {name : String} (h : IsNameText name) : Text.Lacks Text.isLineFeed (escaped name) := by
  unfold escaped
  split_ifs
  · exact h.lacks_lineFeed.append (Text.lacks_ofList (by decide))
  · exact .append (Text.lacks_ofList (by decide)) h.lacks_lineFeed
  · exact h.lacks_lineFeed

theorem isNameText_typeName (wanted : String) : IsNameText (typeName wanted) := by
  unfold typeName
  simp only
  split_ifs
  · exact (isNameText_ofKey wanted).append (isNameText_ofList (by decide))
  · exact isNameText_ofKey wanted

/-- No name in a method ends a line. -/
structure Method.HasNameTexts (method : Method) : Prop where
  name : Text.Lacks Text.isLineFeed method.name
  type : ∀ type, method.gives = .struct type → IsNameText type

/-- No name in a struct ends a line. -/
structure Struct.HasNameTexts (struct : Struct) : Prop where
  name : IsNameText struct.name
  methods : ∀ method ∈ struct.methods, method.HasNameTexts

/-- The names that methods get for well-formed identifiers do not end a line. -/
theorem planMethods_names {chain : String} (hchain : IsNameText chain) : ∀ {accessors : List Accessor}
    {names types : Scope}, (∀ accessor ∈ accessors, accessor.Each Accessor.IsWellNamed) →
      IsNameText names.separator → IsNameText types.separator →
      ∀ method ∈ (planMethods chain names types accessors).1, method.HasNameTexts
  | [], _, _, _, _, _ => fun _ hmem => by cases hmem
  | ⟨identifier, key, address, access⟩ :: accessors, names, types, haccessors, hnames, htypes => by
    obtain ⟨haccessor, hrest⟩ := List.forall_mem_cons.mp haccessors
    have hname : Text.Lacks Text.isLineFeed (escaped (names.freeName (snakeCase identifier.text))) :=
      lacks_escaped (hnames.freeName (isNameText_snakeCase haccessor.self.isNameText))
    have hbehind : ∀ {types : Scope}, IsNameText types.separator →
        ∀ method ∈ (planMethods chain (names.claim (snakeCase identifier.text)).2 types accessors).1,
          method.HasNameTexts := fun htypes => planMethods_names hchain hrest hnames htypes
    cases access with
    | scalar kind => exact List.forall_mem_cons.mpr ⟨⟨hname, fun _ h => by cases h⟩, hbehind htypes⟩
    | list => exact List.forall_mem_cons.mpr ⟨⟨hname, fun _ h => by cases h⟩, hbehind htypes⟩
    | nested child =>
      have htype : IsNameText (nestedTypeName chain identifier) :=
        (hchain.append haccessor.self.isNameText).append (isNameText_ofList (by decide))
      have hgiven := types.isNameText_claim htypes htype
      refine List.forall_mem_cons.mpr ⟨⟨hname, fun type h => ?_⟩, hbehind htypes⟩
      rw [← Gives.struct.inj h]
      exact hgiven

mutual

/-- **No name that planning gives out ends a line**, where the identifiers are well-formed. -/
theorem planStructs_names : ∀ {s : Section} {name chain : String} {isRoot : Bool} {types : Scope},
    s.HasWellFormedNames → IsNameText name → IsNameText chain → IsNameText types.separator →
    ∀ struct ∈ (planStructs name chain isRoot types s).1, struct.HasNameTexts
  | ⟨address, depth, accessors, hasLookup⟩, name, chain, isRoot, types, hs, hname, hchain, htypes => by
    obtain ⟨hserves, hgrows⟩ := planMethods_spec chain accessors (methodScope isRoot hasLookup) types
    have hscope : IsNameText (methodScope isRoot hasLookup).separator := by
      cases isRoot <;> cases hasLookup <;> exact isNameText_ofList (by decide)
    have hmethods := planMethods_names hchain hs.accessors hscope htypes
    intro struct hmem
    rcases List.mem_cons.mp hmem with rfl | hmem
    · exact ⟨hname, hmethods⟩
    · refine planNested_names hs.accessors hchain ?_ hserves hmethods struct hmem
      rw [hgrows.separator]
      exact htypes

theorem planNested_names : ∀ {accessors : List Accessor} {methods : List Method} {chain : String} {types : Scope},
    (∀ accessor ∈ accessors, accessor.Each Accessor.IsWellNamed) → IsNameText chain → IsNameText types.separator →
    List.Forall₂ Method.Serves accessors methods → (∀ method ∈ methods, method.HasNameTexts) →
    ∀ struct ∈ (planNested chain types methods accessors).1, struct.HasNameTexts
  | [], _, _, _, _, _, _, _, _ => fun _ hmem => by cases hmem
  | ⟨identifier, key, address, access⟩ :: accessors, ⟨name, _, gives⟩ :: methods, chain, types, haccessors, hchain,
      htypes, .cons ⟨_, hserves⟩ hrest, hmethods => by
    obtain ⟨haccessor, hbehind⟩ := List.forall_mem_cons.mp haccessors
    obtain ⟨hmethod, hmethodsBehind⟩ := List.forall_mem_cons.mp hmethods
    intro struct hmem
    cases hserves with
    | scalar kind => exact planNested_names hbehind hchain htypes hrest hmethodsBehind struct hmem
    | list => exact planNested_names hbehind hchain htypes hrest hmethodsBehind struct hmem
    | nested child type =>
      obtain ⟨_, _, _, _, _, _, _, hgrows⟩ := planStructs_spec child type (chain ++ identifier.text) false types
      rw [planNested_cons_nested] at hmem
      rcases List.mem_append.mp hmem with hmem | hmem
      · exact planStructs_names (haccessor.nested child rfl) (hmethod.type type rfl)
          (hchain.append haccessor.self.isNameText) htypes struct hmem
      · refine planNested_names hbehind hchain ?_ hrest hmethodsBehind struct hmem
        rw [hgrows.separator]
        exact htypes

end

/-! ## Modules -/

/-- The name of the trait, and the type names in use behind it. -/
def claimProvider (options : Options) (types : Scope) : String × Scope :=
  (reservePrelude types).claim (typeName options.providerTrait)

/-- The name of the root's struct, and the type names in use behind it. -/
def claimRoot (options : Options) (types : Scope) : String × Scope :=
  (claimProvider options types).2.claim (typeName options.rootType)

theorem plan_eq (options : Options) (types : Scope) (root : Section) :
    (Module.plan options types root).1 = ⟨moduleName options, (claimProvider options types).1,
      (planStructs (claimRoot options types).1 "" true (claimRoot options types).2 root).1⟩ := rfl

theorem plan_types_eq (options : Options) (types : Scope) (root : Section) :
    (Module.plan options types root).2 =
      (planStructs (claimRoot options types).1 "" true (claimRoot options types).2 root).2 := rfl

/-- What planning makes of a document: a struct for the root and one for every section inside, under names that are all
different, the name of the trait among them. -/
structure Module.PlannedFor (options : Options) (root : Section) (m : Module) (struct : Struct) (inner : List Struct) :
    Prop where
  name : m.name = moduleName options
  structs : m.structs = struct :: inner
  planned : Planned true root struct inner
  distinct : (m.provider :: m.structs.map Struct.name).Nodup

/-- No name in a module ends a line. -/
structure Module.HasNameTexts (m : Module) : Prop where
  name : Text.Lacks Text.isLineFeed m.name
  provider : IsNameText m.provider
  structs : ∀ struct ∈ m.structs, struct.HasNameTexts

/-- The names of the types that a module declares: the trait's and those of the structs. -/
def Module.typeNames (m : Module) : List String := m.provider :: m.structs.map Struct.name

/-- **Planning a module gives out the names of its types**, each once. -/
theorem plan_grows (options : Options) (types : Scope) (root : Section) :
    (reservePrelude types).Grows (Module.plan options types root).1.typeNames (Module.plan options types root).2 := by
  have hprovider : (reservePrelude types).Grows [(claimProvider options types).1] (claimProvider options types).2 :=
    (reservePrelude types).grows_claim (typeName options.providerTrait)
  have hroot : (claimProvider options types).2.Grows [(claimRoot options types).1] (claimRoot options types).2 :=
    (claimProvider options types).2.grows_claim (typeName options.rootType)
  obtain ⟨struct, inner, hstructs, -, -, others, hperm, hgrows⟩ :=
    planStructs_spec root (claimRoot options types).1 "" true (claimRoot options types).2
  rw [plan_types_eq, plan_eq, hstructs]
  exact (hprovider.trans (hroot.trans hgrows)).perm (hperm.symm.cons _)

/-- **A module has one struct for every section, under names that are all different.** -/
theorem plan_spec (options : Options) (types : Scope) (root : Section) :
    ∃ struct inner, (Module.plan options types root).1.PlannedFor options root struct inner := by
  have hgrows := plan_grows options types root
  obtain ⟨struct, inner, hstructs, -, hplanned, -⟩ :=
    planStructs_spec root (claimRoot options types).1 "" true (claimRoot options types).2
  rw [plan_eq, hstructs] at hgrows ⊢
  refine ⟨struct, inner, ?_, rfl, hplanned, hgrows.nodup⟩
  dsimp only

/-- No name of a module ends a line, where the identifiers are well-formed. -/
theorem plan_names (options : Options) {types : Scope} {root : Section} (htypes : IsNameText types.separator)
    (hroot : root.HasWellFormedNames) : (Module.plan options types root).1.HasNameTexts := by
  have hkept : IsNameText (reservePrelude types).separator := htypes
  have hprovider : IsNameText (claimProvider options types).1 :=
    (reservePrelude types).isNameText_claim hkept (isNameText_typeName options.providerTrait)
  have hname : IsNameText (claimRoot options types).1 :=
    (claimProvider options types).2.isNameText_claim hkept (isNameText_typeName options.rootType)
  have hstructs : ∀ struct ∈ (planStructs (claimRoot options types).1 "" true (claimRoot options types).2 root).1,
      struct.HasNameTexts := planStructs_names hroot hname (fun _ h => by cases h) hkept
  rw [plan_eq]
  refine ⟨?_, hprovider, hstructs⟩
  dsimp only
  exact lacks_escaped (isNameText_snakeCase (isNameText_ofKey options.enclosing))

end TypedSettings.Structs
