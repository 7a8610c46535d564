import TypedSettings.Proofs.Classes.Layout

/-!
# Planned classes

A class stands for one section (`Class.walk` lists the classes in the order of the sections): it is the class that is
planned for the section under the class's own name, and the name of a class inside another one has the fixed end of such
names in it (`Class.IsInside`). A property serves an accessor: it reads at the accessor's address, and gives what is
accessed (`Member.Serves`).

* `planMembers_serves`: the properties of a class serve the accessors of its section;
* `planClass_isInside`: there is one class for every section, in the order of the sections.
-/

namespace TypedSettings.Classes

/-! ## The classes of a class -/

mutual

/-- A class and all classes inside it, each before those inside it. -/
def Class.walk : Class → List Class
  | ⟨name, address, members, hasIndexer⟩ => ⟨name, address, members, hasIndexer⟩ :: walkMembers members

/-- The classes behind a list of properties. -/
def walkMembers : List Member → List Class
  | [] => []
  | ⟨_, _, _, gives⟩ :: members => walkGives gives ++ walkMembers members

/-- The classes whose objects a property makes. -/
def walkGives : Gives → List Class
  | .object type => type.walk
  | .scalar _ => []
  | .list => []

end

/-- The class that is planned for a section under a name. -/
theorem planClass_eq (name : String) (s : Section) : planClass name s =
    ⟨name, s.address, planMembers (memberScope name s.hasLookup) s.accessors, s.hasLookup⟩ := by
  cases s
  rfl

theorem name_planClass (name : String) (s : Section) : (planClass name s).name = name := by
  rw [planClass_eq]

theorem walk_planClass (name : String) (s : Section) : (planClass name s).walk =
    planClass name s :: walkMembers (planMembers (memberScope name s.hasLookup) s.accessors) := by
  cases s
  rfl

/-! ## Planning -/

theorem eq_nested_of_nested? {access : Access} {child : Section} (h : access.nested? = some child) :
    access = .nested child := by
  cases access with
  | nested other => exact congrArg Access.nested (Option.some.inj h)
  | scalar kind => cases h
  | list => cases h

/-- The name that the class of a nested section asks for. -/
theorem isWellFormed_settings {name : String} (h : Identifier.isWellFormed name = true) :
    Identifier.isWellFormed (name ++ "Settings") = true :=
  Identifier.isWellFormed_of_toList_append h String.toList_append (List.all_eq_true.mp (by decide))

/-- What is planned for a list of accessors: a property for the first one, and those for the accessors behind. -/
theorem planMembers_cons {scope named : Scope} {name : String} (accessor : Accessor) (accessors : List Accessor)
    (hclaim : scope.claim accessor.identifier.text = (name, named)) : planMembers scope (accessor :: accessors) =
      ⟨name, accessor.address, !Key.isPlain accessor.key, (planGives name named accessor.access).1⟩ ::
        planMembers (planGives name named accessor.access).2 accessors := by
  obtain ⟨identifier, key, address, access⟩ := accessor
  rw [planMembers, hclaim]

theorem separator_planGives (name : String) (scope : Scope) (access : Access) :
    (planGives name scope access).2.separator = scope.separator := by
  cases access <;> rfl

/-! ## What serves what -/

/-- What a property gives for an access: as much as is accessed, and for a section an object of its class, whose name
has the fixed end of such names in it. -/
inductive Gives.Serves : Access → Gives → Prop
  | scalar (kind : Scalar) : Serves (.scalar kind) (.scalar kind)
  | list : Serves .list .list
  | nested (child : Section) {name : String} : "Settings".toList ⊆ name.toList →
      Serves (.nested child) (.object (planClass name child))

/-- A property serves an accessor: it reads at the accessor's address, and gives what is accessed. -/
structure Member.Serves (accessor : Accessor) (member : Member) : Prop where
  address : member.address = accessor.address
  gives : Gives.Serves accessor.access member.gives

/-- The name that is given out for the class of a section has its fixed end in it. -/
theorem settings_subset_claim {scope scope' : Scope} {property name : String}
    (h : scope.claim (property ++ "Settings") = (name, scope')) : "Settings".toList ⊆ name.toList := by
  have hwanted : "Settings".toList ⊆ (property ++ "Settings").toList := by
    rw [String.toList_append]
    exact List.subset_append_right _ _
  have hname : scope.freeName (property ++ "Settings") = name := congrArg Prod.fst h
  rcases scope.freeName_eq (property ++ "Settings") with heq | ⟨k, heq⟩
  · rw [← hname, heq]
    exact hwanted
  · rw [← hname, heq, Scope.toList_numbered, List.append_assoc]
    exact List.subset_append_of_subset_left _ hwanted

theorem serves_planGives (property : String) (scope : Scope) (access : Access) :
    Gives.Serves access (planGives property scope access).1 := by
  cases access with
  | scalar kind => exact .scalar kind
  | list => exact .list
  | nested child => exact .nested child (settings_subset_claim rfl)

/-- **The properties of a class serve the accessors.** -/
theorem planMembers_serves : ∀ (accessors : List Accessor) (scope : Scope),
    List.Forall₂ Member.Serves accessors (planMembers scope accessors)
  | [], _ => .nil
  | accessor :: accessors, scope => by
    rw [planMembers_cons accessor accessors rfl]
    exact .cons ⟨rfl, serves_planGives _ _ accessor.access⟩ (planMembers_serves accessors _)

/-! ## Classes stand for sections -/

/-- A class inside another one stands for a section. -/
structure Class.IsInside (s : Section) (c : Class) : Prop where
  eq : c = planClass c.name s
  name : "Settings".toList ⊆ c.name.toList

theorem Class.isInside_planClass {name : String} (hname : "Settings".toList ⊆ name.toList) (s : Section) :
    (planClass name s).IsInside s := by
  constructor <;> rw [name_planClass]
  exact hname

mutual

/-- **There is one class for every section inside one**, in the order of the sections. -/
theorem planClass_isInside : ∀ (s : Section) (name : String),
    List.Forall₂ Class.IsInside (Section.walkAccessors s.accessors)
      (walkMembers (planMembers (memberScope name s.hasLookup) s.accessors))
  | ⟨_, _, accessors, hasLookup⟩, name => planMembers_isInside accessors (memberScope name hasLookup)

theorem planMembers_isInside : ∀ (accessors : List Accessor) (scope : Scope),
    List.Forall₂ Class.IsInside (Section.walkAccessors accessors) (walkMembers (planMembers scope accessors))
  | [], _ => .nil
  | ⟨identifier, key, address, access⟩ :: accessors, scope => by
    obtain ⟨name, named, hclaim⟩ : ∃ name named, scope.claim identifier.text = (name, named) := ⟨_, _, rfl⟩
    rw [planMembers_cons _ accessors hclaim, walkMembers, Section.walkAccessors]
    refine List.rel_append ?_ (planMembers_isInside accessors _)
    cases access with
    | scalar kind => exact .nil
    | list => exact .nil
    | nested child =>
      obtain ⟨type, typed, htype⟩ : ∃ type typed, named.claim (name ++ "Settings") = (type, typed) := ⟨_, _, rfl⟩
      rw [planGives, htype, Section.walkAccess, walkGives, walk_planClass, walk_eq]
      exact .cons (Class.isInside_planClass (settings_subset_claim htype) child) (planClass_isInside child type)

end

end TypedSettings.Classes
