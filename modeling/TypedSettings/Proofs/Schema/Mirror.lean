import TypedSettings.Proofs.Schema.Pass
import TypedSettings.Proofs.SideBySide
import TypedSettings.Proofs.Value.Reach

/-!
# Sections mirror objects

The sections of a schema stand for the objects of the document, one for each and in its order. A section mirrors its
object (`Section.Mirrors`): it has the object's address and depth, a lookup when a key is not plain, and an accessor for
every member that is not skipped, which reads the member's value at the member's address (`Accessor.Exposes`, `ReadAs`).

* `Pass.exposes`: the accessors of a pass expose the members that it does not skip;
* `Pass.mirrors`: the sections inside them mirror the objects below the level;
* `ofValue_mirrors`: so do all sections of a schema, and keys lead to an object exactly where there is a section.
-/

namespace TypedSettings

/-! ## What mirrors what -/

/-- How a value is read. A whole number is read as such when 32 bits with sign hold it. -/
inductive ReadAs (onNull : OnNull) : Value → Category → Prop
  | object (members : List (String × Value)) : ReadAs onNull (.object members) .nested
  | array (elements : List Value) : ReadAs onNull (.array elements) .list
  | string (s : String) : ReadAs onNull (.string s) (.scalar .string)
  | null : onNull = .string → ReadAs onNull .null (.scalar .string)
  | bool (b : Bool) : ReadAs onNull (.bool b) (.scalar .boolean)
  | short {i : Int} : -2147483648 ≤ i ∧ i ≤ 2147483647 → ReadAs onNull (.integer i) (.scalar .integer)
  | long {i : Int} : ¬(-2147483648 ≤ i ∧ i ≤ 2147483647) → ReadAs onNull (.integer i) (.scalar .float)
  | float (x : Binary64) : ReadAs onNull (.float x) (.scalar .float)

/-- Whether a value has an accessor. -/
def OnNull.exposes : OnNull → Value → Bool
  | .skip, .null => false
  | _, _ => true

/-- The category of what an accessor gives. -/
def Access.category : Access → Category
  | .scalar kind => .scalar kind
  | .list => .list
  | .nested _ => .nested

/-- An accessor exposes a member of the object at `level`; what it nests stands at its own address. -/
structure Accessor.Exposes (onNull : OnNull) (level : Address) (accessor : Accessor) (member : String × Value) :
    Prop where
  key : accessor.key = member.1
  address : accessor.address = level.child member.1
  access : ReadAs onNull member.2 accessor.access.category
  nested : ∀ child, accessor.access.nested? = some child → child.address = accessor.address

/-- A section mirrors the object at an address. -/
structure Section.Mirrors (onNull : OnNull) (s : Section) (object : Address × List (String × Value)) : Prop where
  address : s.address = object.1
  depth : s.depth = object.1.keys.length
  hasLookup : s.hasLookup = true ↔ ∃ member ∈ object.2, Key.isPlain member.1 = false
  accessors : List.Forall₂ (Accessor.Exposes onNull s.address) s.accessors
    (object.2.filter fun member => onNull.exposes member.2)

/-- A schema mirrors the document that holds the given members: its sections are those of the objects, in the order of
the document and each once; keys lead to an object exactly where there is a section, and the section mirrors it. -/
structure Schema.Mirrors (onNull : OnNull) (schema : Schema) (members : List (String × Value)) : Prop where
  inOrder : List.Forall₂ (Section.Mirrors onNull) schema.root.walk ((Value.object members).objects .root)
  once : (schema.root.walk.map Section.address).Nodup
  exists_iff : ∀ address, (∃ s ∈ schema.root.walk, s.address = address) ↔
    ∃ inner, (Value.object members).at? address.keys = some (.object inner)
  mirrors : ∀ s ∈ schema.root.walk, ∀ inner, (Value.object members).at? s.address.keys = some (.object inner) →
    s.Mirrors onNull (s.address, inner)

/-! ## Leaves -/

section Leaves

variable {onNull : OnNull} {address : Address} {value : Value} {access : Access} {told : List Notice}

theorem readAs_integer (i : Int) : ReadAs onNull (.integer i) (.scalar (.ofInteger i)) := by
  by_cases h : -2147483648 ≤ i ∧ i ≤ 2147483647
  · have hfits : Scalar.ofInteger i = .integer := by
      simp only [Scalar.ofInteger, fitsInt32, Bool.and_eq_true, decide_eq_true_eq]
      exact if_pos (by omega)
    rw [hfits]
    exact .short h
  · have hfits : Scalar.ofInteger i = .float := by
      simp only [Scalar.ofInteger, fitsInt32, Bool.and_eq_true, decide_eq_true_eq]
      exact if_neg (by omega)
    rw [hfits]
    exact .long h

theorem Leaf.readAs (h : Leaf onNull address value access told) : ReadAs onNull value access.category := by
  cases h with
  | string s => exact .string s
  | bool b => exact .bool b
  | integer i => exact readAs_integer i
  | float x => exact .float x
  | array elements => exact .array elements
  | null h => exact .null h

theorem Leaf.ne_object (h : Leaf onNull address value access told) : ∀ members, value ≠ .object members := by
  cases h <;> exact fun _ e => by cases e

theorem Leaf.nested?_eq_none (h : Leaf onNull address value access told) : access.nested? = none := by
  cases h <;> rfl

theorem Leaf.exposes (h : Leaf onNull address value access told) : onNull.exposes value = true := by
  cases h with
  | null h => rw [h]; rfl
  | _ => cases onNull <;> rfl

end Leaves

/-! ## Passes -/

section Passes

variable {options : Options} {level : Address} {depth : Nat} {owners : Owners} {members : List (String × Value)}
  {accessors : List Accessor} {notices : List Notice}

theorem exposes_object (onNull : OnNull) (members : List (String × Value)) :
    onNull.exposes (.object members) = true := by
  cases onNull <;> rfl

/-- **The accessors of a level expose its members.** -/
theorem Pass.exposes (h : Pass options level depth owners members accessors notices) :
    List.Forall₂ (Accessor.Exposes options.onNull level) accessors
      (members.filter fun member => options.onNull.exposes member.2) := by
  induction h with
  | done => exact .nil
  | skipped hskip _ ih =>
    rw [List.filter_cons_of_neg (by simp [hskip, OnNull.exposes])]
    exact ih
  | leaf hleaf _ _ ih =>
    rw [List.filter_cons_of_pos (by simpa using hleaf.exposes)]
    refine .cons ⟨rfl, rfl, hleaf.readAs, fun child hchild => ?_⟩ ih
    rw [hleaf.nested?_eq_none] at hchild
    cases hchild
  | object _ _ _ _ ih =>
    rw [List.filter_cons_of_pos (by simpa using exposes_object _ _)]
    refine .cons ⟨rfl, rfl, .object _, fun child hchild => ?_⟩ ih
    cases hchild
    rfl

/-- The section made of a pass mirrors the object whose members were passed over. -/
theorem Pass.sectionOf_mirrors (h : Pass options level depth owners members accessors notices)
    (hdepth : depth = level.keys.length) :
    (Schema.sectionOf level depth members accessors).Mirrors options.onNull (level, members) where
  address := rfl
  depth := hdepth
  hasLookup := by simp [Schema.sectionOf]
  accessors := h.exposes

/-- **The sections inside the accessors of a level mirror the objects below it**, in their order. -/
theorem Pass.mirrors (h : Pass options level depth owners members accessors notices) :
    depth = level.keys.length →
    List.Forall₂ (Section.Mirrors options.onNull) (Section.walkAccessors accessors)
      (Value.objectsBelow level members) := by
  induction h with
  | done => exact fun _ => .nil
  | skipped _ _ ih => exact ih
  | leaf hleaf _ _ ih =>
    intro hdepth
    rw [Section.walkAccessors, hleaf.walkAccess_eq_nil, Value.objectsBelow, Value.objects_eq_nil _ hleaf.ne_object]
    exact ih hdepth
  | @object level depth _ key _ _ _ _ _ _ _ _ hinner _ _ ihInner ih =>
    intro hdepth
    have hdepth' : depth + 1 = (level.child key).keys.length := by
      rw [hdepth, Address.child, List.length_append, List.length_singleton]
    exact List.rel_append (.cons (hinner.sectionOf_mirrors hdepth') (ihInner hdepth')) (ih hdepth)

end Passes

/-! ## Schemas -/

/-- The sections of a schema, object by object. -/
theorem forall₂_mirrors {options : Options} {members : List (String × Value)} {schema : Schema}
    (h : Schema.ofValue options (.object members) = .ok schema) :
    List.Forall₂ (Section.Mirrors options.onNull) schema.root.walk ((Value.object members).objects .root) := by
  obtain ⟨accessors, hroot, hpass⟩ := exists_pass h
  rw [hroot]
  exact .cons (hpass.sectionOf_mirrors rfl) (hpass.mirrors rfl)

/-- The sections of a schema stand at the addresses of the objects. -/
theorem map_address_walk {options : Options} {members : List (String × Value)} {schema : Schema}
    (h : Schema.ofValue options (.object members) = .ok schema) :
    schema.root.walk.map Section.address = ((Value.object members).objects .root).map Prod.fst := by
  rw [← List.forall₂_eq_eq_eq, List.forall₂_map_left_iff, List.forall₂_map_right_iff]
  exact (forall₂_mirrors h).imp fun _ _ hm => hm.address

/-- **A schema mirrors its document.** -/
theorem ofValue_mirrors {options : Options} {members : List (String × Value)} {schema : Schema}
    (hkeys : (Value.object members).hasDistinctKeys = true)
    (h : Schema.ofValue options (.object members) = .ok schema) : schema.Mirrors options.onNull members := by
  have haddresses := map_address_walk h
  refine ⟨forall₂_mirrors h, haddresses ▸ Value.nodup_objects hkeys, fun address => ?_, fun s hs inner hat => ?_⟩
  · calc (∃ s ∈ schema.root.walk, s.address = address)
      _ ↔ address ∈ schema.root.walk.map Section.address := List.mem_map.symm
      _ ↔ ∃ inner, (address, inner) ∈ (Value.object members).objects .root := by
        rw [haddresses, List.mem_map]
        exact ⟨fun ⟨⟨_, inner⟩, hmem, e⟩ => ⟨inner, e ▸ hmem⟩, fun ⟨inner, hmem⟩ => ⟨_, hmem, rfl⟩⟩
      _ ↔ ∃ inner, (Value.object members).at? address.keys = some (.object inner) :=
        exists_congr fun _ => Value.mem_objects_root hkeys
  · obtain ⟨⟨address, inner'⟩, hmem, hmirrors⟩ := exists_mem_of_forall₂ (forall₂_mirrors h) s hs
    have haddress : s.address = address := hmirrors.address
    subst haddress
    rw [Value.mem_objects_root hkeys, hat] at hmem
    cases hmem
    exact hmirrors

/-- The hypotheses are met by a document with a null to skip, a number that 32 bits do not hold, and an object that
only an array reaches. -/
theorem ofValue_mirrors_mixed : ∃ schema,
    Schema.ofValue {} (.object [("a", .object [("b-c", .object []), ("d", .null)]), ("e", .integer 2147483648),
      ("f", .array [.object []])]) = .ok schema ∧
    schema.root.walk.map (·.address.keys) = [[], ["a"], ["a", "b-c"]] ∧
    schema.Mirrors .skip [("a", .object [("b-c", .object []), ("d", .null)]), ("e", .integer 2147483648),
      ("f", .array [.object []])] := by
  refine exists_of_isOk (by decide) fun schema h => ⟨?_, ofValue_mirrors (by decide) h⟩
  apply eq_of_toOption_map_eq h
  decide

end TypedSettings
