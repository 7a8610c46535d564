import TypedSettings.Proofs.Except
import TypedSettings.Schema

/-!
# Passes over the members of a level

`Pass options level depth owners members accessors notices` says that the members of the object at `level` give these
accessors and notices, when the identifiers in `owners` are given out already. It has one rule for each thing that can
become of a member: it is a null that is skipped, it is read in one piece (`Leaf`), or it holds an object with a pass of
its own. What a key gets is said by `Named`.

Every schema comes from such a pass (`exists_pass`), so that an invariant of the generation is one induction over
passes.
-/

namespace TypedSettings

/-! ## The rules -/

/-- What a key of the level at `level` gets as its identifier, and what is told about it. -/
inductive Named (onCollision : OnCollision) (owners : Owners) (level : Address) (key : String) :
    Identifier → List Notice → Prop
  | natural : owners.owner? (.ofKey key) = none → Named onCollision owners level key (.ofKey key) []
  | renamed {first : String} : onCollision = .suffix → owners.owner? (.ofKey key) = some first →
      Named onCollision owners level key (owners.resolve (.ofKey key))
        [.nameCollision level.levelName first key (.ofKey key) (owners.resolve (.ofKey key))]

/-- What the accessor of a value that is no object gives, and what is told about the value. -/
inductive Leaf (onNull : OnNull) (address : Address) : Value → Access → List Notice → Prop
  | string (s : String) : Leaf onNull address (.string s) (.scalar .string) []
  | bool (b : Bool) : Leaf onNull address (.bool b) (.scalar .boolean) []
  | integer (i : Int) : Leaf onNull address (.integer i) (.scalar (.ofInteger i)) []
  | float (x : Binary64) : Leaf onNull address (.float x) (.scalar .float) []
  | array (elements : List Value) : Leaf onNull address (.array elements) .list []
  | null : onNull = .string → Leaf onNull address .null (.scalar .string) [.nullAsString address.text]

/-- **A pass over the members of a level.** -/
inductive Pass (options : Options) :
    Address → Nat → Owners → List (String × Value) → List Accessor → List Notice → Prop
  | done {level : Address} {depth : Nat} {owners : Owners} : Pass options level depth owners [] [] []
  | skipped {level : Address} {depth : Nat} {owners : Owners} {key : String} {members : List (String × Value)}
      {accessors : List Accessor} {notices : List Notice} :
      options.onNull = .skip → Pass options level depth owners members accessors notices →
      Pass options level depth owners ((key, .null) :: members) accessors
        (.nullSkipped (level.child key).text :: notices)
  | leaf {level : Address} {depth : Nat} {owners : Owners} {key : String} {value : Value}
      {members : List (String × Value)} {access : Access} {identifier : Identifier} {accessors : List Accessor}
      {told collision notices : List Notice} :
      Leaf options.onNull (level.child key) value access told →
      Named options.onCollision owners level key identifier collision →
      Pass options level depth (owners.give identifier key) members accessors notices →
      Pass options level depth owners ((key, value) :: members)
        (⟨identifier, key, level.child key, access⟩ :: accessors) (told ++ collision ++ notices)
  | object {level : Address} {depth : Nat} {owners : Owners} {key : String} {inner members : List (String × Value)}
      {identifier : Identifier} {children accessors : List Accessor} {told collision notices : List Notice} :
      Pass options (level.child key) (depth + 1) .empty inner children told →
      Named options.onCollision owners level key identifier collision →
      Pass options level depth (owners.give identifier key) members accessors notices →
      Pass options level depth owners ((key, .object inner) :: members)
        (⟨identifier, key, level.child key,
          .nested (Schema.sectionOf (level.child key) (depth + 1) inner children)⟩ :: accessors)
        (told ++ collision ++ notices)

/-! ## The generation follows the rules -/

theorem Owners.name_eq_ok {owners owners' : Owners} {onCollision : OnCollision} {level : Address} {key : String}
    {identifier : Identifier} {collision : List Notice}
    (h : owners.name onCollision level key = .ok (identifier, owners', collision)) :
    owners' = owners.give identifier key ∧ Named onCollision owners level key identifier collision := by
  simp only [Owners.name] at h
  cases howner : owners.owner? (.ofKey key) with
  | none =>
    simp only [howner, Except.ok.injEq, Prod.mk.injEq] at h
    obtain ⟨rfl, rfl, rfl⟩ := h
    exact ⟨rfl, .natural howner⟩
  | some first =>
    cases onCollision with
    | error => simp only [howner, reduceCtorEq] at h
    | suffix =>
      simp only [howner, Except.ok.injEq, Prod.mk.injEq] at h
      obtain ⟨rfl, rfl, rfl⟩ := h
      exact ⟨rfl, .renamed rfl howner⟩

/-- What has come of a value: a null without an accessor, or an accessor by one of the rules. -/
def ComesOf (options : Options) (address : Address) (depth : Nat) (value : Value) :
    Option Access → List Notice → Prop
  | none, told => value = .null ∧ options.onNull = .skip ∧ told = [.nullSkipped address.text]
  | some access, told => Leaf options.onNull address value access told ∨
      ∃ inner children, value = .object inner ∧
        access = .nested (Schema.sectionOf address (depth + 1) inner children) ∧
        Pass options address (depth + 1) .empty inner children told

theorem comesOf_null {options : Options} {address : Address} {depth : Nat} {access : Option Access}
    {told : List Notice} (h : Schema.nullAccess options.onNull address = .ok (access, told)) :
    ComesOf options address depth .null access told := by
  unfold Schema.nullAccess at h
  split at h
  · rename_i hskip
    cases h
    exact ⟨rfl, hskip, rfl⟩
  · rename_i hstring
    cases h
    exact Or.inl (.null hstring)
  · cases h

mutual

theorem pass_of_accessorsOf {options : Options} : ∀ {members : List (String × Value)} {level : Address} {depth : Nat}
    {owners : Owners} {accessors : List Accessor} {notices : List Notice},
    Schema.accessorsOf options level depth owners members = .ok (accessors, notices) →
    Pass options level depth owners members accessors notices
  | [], _, _, _, _, _, h => by
    cases h
    exact .done
  | (key, value) :: members, level, depth, owners, accessors, notices, h => by
    rw [Schema.accessorsOf, bind_eq_ok] at h
    obtain ⟨⟨access, told⟩, hvalue, h⟩ := h
    have hcomes := comesOf_accessOf hvalue
    cases access with
    | none =>
      obtain ⟨⟨accessors', more⟩, hmembers, h⟩ := bind_eq_ok.mp h
      cases h
      obtain ⟨rfl, hskip, rfl⟩ := hcomes
      exact .skipped hskip (pass_of_accessorsOf hmembers)
    | some access =>
      obtain ⟨⟨identifier, owners', collision⟩, hname, h⟩ := bind_eq_ok.mp h
      obtain ⟨⟨accessors', more⟩, hmembers, h⟩ := bind_eq_ok.mp h
      cases h
      obtain ⟨rfl, hnamed⟩ := Owners.name_eq_ok hname
      rcases hcomes with hleaf | ⟨inner, children, rfl, rfl, hinner⟩
      · exact .leaf hleaf hnamed (pass_of_accessorsOf hmembers)
      · exact .object hinner hnamed (pass_of_accessorsOf hmembers)

theorem comesOf_accessOf {options : Options} : ∀ {value : Value} {address : Address} {depth : Nat}
    {access : Option Access} {told : List Notice},
    Schema.accessOf options address depth value = .ok (access, told) →
    ComesOf options address depth value access told
  | .object inner, address, depth, access, told, h => by
    rw [Schema.accessOf, bind_eq_ok] at h
    obtain ⟨⟨children, notices⟩, hinner, h⟩ := h
    cases h
    exact Or.inr ⟨inner, children, rfl, rfl, pass_of_accessorsOf hinner⟩
  | .null, _, _, _, _, h => comesOf_null h
  | .array elements, _, _, _, _, h => by cases h; exact Or.inl (.array elements)
  | .string s, _, _, _, _, h => by cases h; exact Or.inl (.string s)
  | .bool b, _, _, _, _, h => by cases h; exact Or.inl (.bool b)
  | .integer i, _, _, _, _, h => by cases h; exact Or.inl (.integer i)
  | .float x, _, _, _, _, h => by cases h; exact Or.inl (.float x)

end

/-! ## Sections come from passes -/

section Sections

variable {options : Options} {members : List (String × Value)}

theorem Leaf.walkAccess_eq_nil {onNull : OnNull} {address : Address} {value : Value} {access : Access}
    {told : List Notice} (h : Leaf onNull address value access told) : Section.walkAccess access = [] := by
  cases h <;> rfl

/-- A section comes from a pass over the members of a level of its own. -/
def Section.ComesOfPass (options : Options) (s : Section) : Prop :=
  ∃ level depth members accessors notices, s = Schema.sectionOf level depth members accessors ∧
    Pass options level depth .empty members accessors notices

/-- Every section inside the accessors of a level comes from a pass. -/
theorem Pass.comesOfPass {level : Address} {depth : Nat} {owners : Owners} {accessors : List Accessor}
    {notices : List Notice} (h : Pass options level depth owners members accessors notices) :
    ∀ s ∈ Section.walkAccessors accessors, s.ComesOfPass options := by
  induction h with
  | done => exact fun _ hs => by cases hs
  | skipped _ _ ih => exact ih
  | leaf hleaf _ _ ih =>
    intro s hs
    rw [Section.walkAccessors, hleaf.walkAccess_eq_nil] at hs
    exact ih s hs
  | object hinner _ _ ihInner ih =>
    intro s hs
    rcases List.mem_append.mp hs with hs | hs
    · rcases List.mem_cons.mp hs with rfl | hs
      · exact ⟨_, _, _, _, _, rfl, hinner⟩
      · exact ihInner s hs
    · exact ih s hs

theorem exists_object {value : Value} {schema : Schema} (h : Schema.ofValue options value = .ok schema) :
    ∃ members, value = .object members := by
  cases value with
  | object members => exact ⟨members, rfl⟩
  | _ => cases h

/-- **Every schema comes from a pass over the document.** -/
theorem exists_pass {schema : Schema} (h : Schema.ofValue options (.object members) = .ok schema) : ∃ accessors,
    schema.root = Schema.sectionOf .root 0 members accessors ∧
      Pass options .root 0 .empty members accessors schema.notices := by
  rw [Schema.ofValue, bind_eq_ok] at h
  obtain ⟨⟨accessors, notices⟩, hmembers, h⟩ := h
  cases h
  exact ⟨accessors, rfl, pass_of_accessorsOf hmembers⟩

/-- **Every section of a schema comes from a pass.** -/
theorem comesOfPass_of_mem_walk {schema : Schema} (h : Schema.ofValue options (.object members) = .ok schema) :
    ∀ s ∈ schema.root.walk, s.ComesOfPass options := by
  obtain ⟨accessors, hroot, hpass⟩ := exists_pass h
  rw [hroot]
  intro s hs
  rcases List.mem_cons.mp hs with rfl | hs
  · exact ⟨_, _, _, _, _, rfl, hpass⟩
  · exact hpass.comesOfPass s hs

end Sections

end TypedSettings
