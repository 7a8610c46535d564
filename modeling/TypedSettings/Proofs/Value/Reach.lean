import Mathlib.Data.List.Nodup
import TypedSettings.Address
import TypedSettings.Value

/-!
# What objects reach

A schema only sees what is reached from the root through members of objects, never through elements of arrays. Three
views of that part of a document:

* `Value.at?` follows keys;
* `Value.objects` lists the objects, each before those inside it;
* `Value.reached` lists the members, each behind those of the object that it holds.

`Value.hasDistinctKeys` tells the documents in which a key stands at most once in each object. There every address
belongs to one object and one member at most (`nodup_objects`, `nodup_reached`), and the listed objects and members are
those that keys lead to (`mem_objects`, `mem_reached`).
-/

namespace TypedSettings

/-- A member of the object at an address. -/
structure Member where
  level : Address
  key : String
  value : Value

/-- The address of a member's value. -/
def Member.address (member : Member) : Address := member.level.child member.key

namespace Value

/-! ## The views -/

/-- The value that a list of keys leads to, each the key of a member. -/
def at? : Value → List String → Option Value
  | value, [] => some value
  | .object members, key :: keys => (members.lookup key).bind (at? · keys)
  | _, _ :: _ => none

mutual

/-- The objects that are reached from a value at an address, with their addresses and members. -/
def objects (address : Address) : Value → List (Address × List (String × Value))
  | .object members => (address, members) :: objectsBelow address members
  | _ => []

/-- The objects that are reached from the members of the object at an address. -/
def objectsBelow (address : Address) : List (String × Value) → List (Address × List (String × Value))
  | [] => []
  | (key, value) :: members => objects (address.child key) value ++ objectsBelow address members

end

mutual

/-- The members that are reached from a value at an address. -/
def reached (address : Address) : Value → List Member
  | .object members => reachedFrom address members
  | _ => []

/-- The members that are reached from those of the object at an address, these included. -/
def reachedFrom (address : Address) : List (String × Value) → List Member
  | [] => []
  | (key, value) :: members => reached (address.child key) value ++ ⟨address, key, value⟩ :: reachedFrom address members

end

mutual

/-- Whether no object in a value has a key twice. -/
def hasDistinctKeys : Value → Bool
  | .object members => decide (members.map Prod.fst).Nodup && allHaveDistinctKeys members
  | .array elements => elementsHaveDistinctKeys elements
  | _ => true

/-- Whether no object in the elements of an array has a key twice. -/
def elementsHaveDistinctKeys : List Value → Bool
  | [] => true
  | value :: elements => hasDistinctKeys value && elementsHaveDistinctKeys elements

/-- Whether no object in the values of members has a key twice. -/
def allHaveDistinctKeys : List (String × Value) → Bool
  | [] => true
  | (_, value) :: members => hasDistinctKeys value && allHaveDistinctKeys members

end

/-! ## Part by part -/

/-- What holds of a list whenever it holds of its elements, of an object whenever it holds of its members' values, and
of every value that holds no other, holds of every value. -/
theorem partInduction {P : Value → Prop} (array : ∀ elements, (∀ x ∈ elements, P x) → P (.array elements))
    (object : ∀ members, (∀ member ∈ members, P member.2) → P (.object members))
    (leaf : ∀ value, (∀ elements, value ≠ .array elements) → (∀ members, value ≠ .object members) → P value) :
    ∀ value, P value
  | .array elements => array elements fun x _ => partInduction array object leaf x
  | .object members => object members fun member _ => partInduction array object leaf member.2
  | .null => leaf _ (fun _ h => by cases h) fun _ h => by cases h
  | .bool _ => leaf _ (fun _ h => by cases h) fun _ h => by cases h
  | .integer _ => leaf _ (fun _ h => by cases h) fun _ h => by cases h
  | .float _ => leaf _ (fun _ h => by cases h) fun _ h => by cases h
  | .string _ => leaf _ (fun _ h => by cases h) fun _ h => by cases h
termination_by value => sizeOf value
decreasing_by
  · rename_i hmem
    have hlt := List.sizeOf_lt_of_mem hmem
    simp only [Value.array.sizeOf_spec]
    omega
  · rename_i hmem
    have hlt := List.sizeOf_lt_of_mem hmem
    obtain ⟨key, value⟩ := member
    simp only [Prod.mk.sizeOf_spec] at hlt
    simp only [Value.object.sizeOf_spec]
    omega

/-- What holds of an object whenever it holds of its members' values, and of everything that is no object, holds of
every value. -/
theorem memberInduction {P : Value → Prop}
    (object : ∀ members, (∀ key value, (key, value) ∈ members → P value) → P (.object members))
    (other : ∀ value, (∀ members, value ≠ .object members) → P value) (value : Value) : P value := by
  induction value using partInduction with
  | array elements _ => exact other _ fun _ h => by cases h
  | object members ih => exact object members fun key value hmem => ih (key, value) hmem
  | leaf value _ hobject => exact other value hobject

theorem objectsBelow_eq (address : Address) : ∀ (members : List (String × Value)),
    objectsBelow address members = members.flatMap fun (key, value) => objects (address.child key) value
  | [] => rfl
  | (key, value) :: members => by rw [objectsBelow, objectsBelow_eq address members, List.flatMap_cons]

theorem objects_eq_nil {value : Value} (address : Address) (h : ∀ members, value ≠ .object members) :
    objects address value = [] := by
  cases value with
  | object members => exact absurd rfl (h members)
  | _ => rfl

theorem at?_eq_none {value : Value} {key : String} {keys : List String} (h : ∀ members, value ≠ .object members) :
    value.at? (key :: keys) = none := by
  cases value with
  | object members => exact absurd rfl (h members)
  | _ => rfl

/-- No keys lead from anything else to an object. -/
theorem at?_ne_object {value : Value} (h : ∀ members, value ≠ .object members) (keys : List String)
    (members : List (String × Value)) : value.at? keys ≠ some (.object members) := by
  intro hat
  cases keys with
  | nil => exact h members (Option.some.inj hat)
  | cons key keys =>
    rw [at?_eq_none h] at hat
    cases hat

theorem hasDistinctKeys_object {members : List (String × Value)} : hasDistinctKeys (.object members) = true ↔
    (members.map Prod.fst).Nodup ∧ ∀ key value, (key, value) ∈ members → hasDistinctKeys value = true := by
  have hall : ∀ members, allHaveDistinctKeys members = true ↔
      ∀ key value, (key, value) ∈ members → hasDistinctKeys value = true := by
    intro members
    induction members with
    | nil => simp [allHaveDistinctKeys]
    | cons member members ih =>
      obtain ⟨key, value⟩ := member
      simp only [allHaveDistinctKeys, Bool.and_eq_true, ih, List.mem_cons, Prod.mk.injEq]
      constructor
      · rintro ⟨h₁, h₂⟩ key' value' (⟨rfl, rfl⟩ | h)
        · exact h₁
        · exact h₂ key' value' h
      · exact fun h => ⟨h key value (Or.inl ⟨rfl, rfl⟩), fun key' value' h' => h key' value' (Or.inr h')⟩
  simp only [hasDistinctKeys, Bool.and_eq_true, decide_eq_true_eq, hall]

/-! ## The objects of a document -/

theorem lookup_eq_some_of_mem : ∀ {members : List (String × Value)} {key : String} {value : Value},
    (members.map Prod.fst).Nodup → (key, value) ∈ members → members.lookup key = some value
  | (k, v) :: members, key, value, hnd, h => by
    rw [List.map_cons, List.nodup_cons] at hnd
    rcases List.mem_cons.mp h with h | h
    · cases h
      simp
    · have hne : key ≠ k := fun e => hnd.1 (List.mem_map.mpr ⟨(key, value), h, e⟩)
      rw [List.lookup_cons, beq_false_of_ne hne]
      exact lookup_eq_some_of_mem hnd.2 h

theorem mem_of_lookup_eq_some {members : List (String × Value)} {key : String} {value : Value}
    (h : members.lookup key = some value) : (key, value) ∈ members := by
  obtain ⟨before, after, rfl, -⟩ := List.lookup_eq_some_iff.mp h
  exact List.mem_append_right before List.mem_cons_self

/-- **The listed objects are those that keys lead to.** -/
theorem mem_objects {value : Value} : ∀ {base address : Address} {members : List (String × Value)},
    value.hasDistinctKeys = true → ((address, members) ∈ objects base value ↔
      ∃ keys, address.keys = base.keys ++ keys ∧ value.at? keys = some (.object members)) := by
  induction value using memberInduction with
  | other value h =>
    intro base address members _
    rw [objects_eq_nil base h]
    refine ⟨fun hm => absurd hm List.not_mem_nil, ?_⟩
    exact fun ⟨keys, _, hat⟩ => absurd hat (at?_ne_object h keys members)
  | object fields ih =>
    intro base address members hd
    obtain ⟨hnd, hvalues⟩ := hasDistinctKeys_object.mp hd
    rw [objects, List.mem_cons, objectsBelow_eq, List.mem_flatMap]
    constructor
    · rintro (h | ⟨⟨key, value⟩, hmem, h⟩)
      · cases h
        exact ⟨[], by simp, rfl⟩
      · obtain ⟨keys, hkeys, hat⟩ := (ih key value hmem (hvalues key value hmem)).mp h
        refine ⟨key :: keys, by simpa [Address.child] using hkeys, ?_⟩
        rw [at?, lookup_eq_some_of_mem hnd hmem]
        exact hat
    · rintro ⟨keys, hkeys, hat⟩
      cases keys with
      | nil =>
        cases hat
        rw [List.append_nil] at hkeys
        exact Or.inl (congrArg (·, fields) (congrArg Address.mk hkeys))
      | cons key keys =>
        rw [at?] at hat
        obtain ⟨value, hlook, hat⟩ := Option.bind_eq_some_iff.mp hat
        have hmem := mem_of_lookup_eq_some hlook
        exact Or.inr ⟨(key, value), hmem, (ih key value hmem (hvalues key value hmem)).mpr
          ⟨keys, by simpa [Address.child] using hkeys, hat⟩⟩

/-- From the root, the keys of an object's address lead to it. -/
theorem mem_objects_root {value : Value} (h : value.hasDistinctKeys = true) {address : Address}
    {members : List (String × Value)} :
    (address, members) ∈ objects .root value ↔ value.at? address.keys = some (.object members) := by
  rw [mem_objects h]
  constructor
  · rintro ⟨keys, hkeys, hat⟩
    rw [hkeys]
    exact hat
  · exact fun hat => ⟨address.keys, rfl, hat⟩

/-! ## Addresses belong to one thing -/

/-- Things that are listed member by member have distinct addresses, when those of one member do and each begins with
the member's address: the members of an object have distinct keys. -/
theorem nodup_flatMap {β : Type} {list : String × Value → List β} {address : β → Address} {base : Address}
    {members : List (String × Value)} (hnd : (members.map Prod.fst).Nodup)
    (heach : ∀ member ∈ members, ((list member).map address).Nodup)
    (hbelow : ∀ member ∈ members, ∀ b ∈ list member, ∃ keys, (address b).keys = base.keys ++ member.1 :: keys) :
    ((members.flatMap list).map address).Nodup := by
  rw [List.map_flatMap]
  refine List.nodup_flatMap.mpr ⟨heach, ?_⟩
  have hpairs : members.Pairwise fun m n => m.1 ≠ n.1 := List.pairwise_map.mp hnd
  refine hpairs.imp_of_mem ?_
  intro m n hm hn hne a ha₁ ha₂
  obtain ⟨b₁, hb₁, rfl⟩ := List.mem_map.mp ha₁
  obtain ⟨b₂, hb₂, hb⟩ := List.mem_map.mp ha₂
  obtain ⟨keys₁, h₁⟩ := hbelow m hm b₁ hb₁
  obtain ⟨keys₂, h₂⟩ := hbelow n hn b₂ hb₂
  rw [hb, h₁] at h₂
  exact hne (List.cons.inj (List.append_cancel_left h₂)).1

/-- **No address belongs to two objects.** -/
theorem nodup_objects {value : Value} : ∀ {base : Address}, value.hasDistinctKeys = true →
    ((objects base value).map Prod.fst).Nodup := by
  induction value using memberInduction with
  | other value h =>
    intro base _
    rw [objects_eq_nil base h]
    exact List.nodup_nil
  | object fields ih =>
    intro base hd
    obtain ⟨hnd, hvalues⟩ := hasDistinctKeys_object.mp hd
    have hbelow : ∀ member ∈ fields, ∀ object ∈ objects (base.child member.1) member.2,
        ∃ keys, object.1.keys = base.keys ++ member.1 :: keys := by
      intro ⟨key, value⟩ hmem ⟨address, members⟩ hobject
      obtain ⟨keys, hkeys, -⟩ := (mem_objects (hvalues key value hmem)).mp hobject
      exact ⟨keys, by simpa [Address.child] using hkeys⟩
    rw [objects, List.map_cons, List.nodup_cons, objectsBelow_eq]
    constructor
    · intro h
      obtain ⟨object, hmem, hbase⟩ := List.mem_map.mp h
      obtain ⟨member, hmem', hobject⟩ := List.mem_flatMap.mp hmem
      obtain ⟨keys, hkeys⟩ := hbelow member hmem' object hobject
      rw [hbase] at hkeys
      simp at hkeys
    · exact nodup_flatMap hnd (fun ⟨key, value⟩ hmem => ih key value hmem (hvalues key value hmem)) hbelow

theorem reachedFrom_eq (address : Address) : ∀ (members : List (String × Value)),
    reachedFrom address members =
      members.flatMap fun (key, value) => reached (address.child key) value ++ [⟨address, key, value⟩]
  | [] => rfl
  | (key, value) :: members => by
    rw [reachedFrom, reachedFrom_eq address members, List.flatMap_cons, List.append_assoc, List.singleton_append]

theorem reached_eq_nil {value : Value} (address : Address) (h : ∀ members, value ≠ .object members) :
    reached address value = [] := by
  cases value with
  | object members => exact absurd rfl (h members)
  | _ => rfl

/-- **The members that are reached are those that keys lead to.** -/
theorem mem_reached {value : Value} : ∀ {base : Address} {member : Member}, value.hasDistinctKeys = true →
    (member ∈ reached base value ↔
      ∃ keys, member.level.keys = base.keys ++ keys ∧ value.at? (keys ++ [member.key]) = some member.value) := by
  induction value using memberInduction with
  | other value h =>
    intro base member _
    rw [reached_eq_nil base h]
    refine ⟨fun hm => absurd hm List.not_mem_nil, ?_⟩
    rintro ⟨keys, -, hat⟩
    cases keys with
    | nil => rw [List.nil_append, at?_eq_none h] at hat; cases hat
    | cons key keys => rw [List.cons_append, at?_eq_none h] at hat; cases hat
  | object fields ih =>
    intro base member hd
    obtain ⟨hnd, hvalues⟩ := hasDistinctKeys_object.mp hd
    rw [reached, reachedFrom_eq, List.mem_flatMap]
    constructor
    · rintro ⟨⟨key, value⟩, hfield, hmem⟩
      have hlook := lookup_eq_some_of_mem hnd hfield
      rcases List.mem_append.mp hmem with hmem | hmem
      · obtain ⟨keys, hkeys, hat⟩ := (ih key value hfield (hvalues key value hfield)).mp hmem
        refine ⟨key :: keys, by simpa [Address.child] using hkeys, ?_⟩
        rw [List.cons_append, at?, hlook]
        exact hat
      · rw [List.mem_singleton.mp hmem]
        refine ⟨[], (List.append_nil _).symm, ?_⟩
        rw [List.nil_append, at?, hlook]
        rfl
    · rintro ⟨keys, hkeys, hat⟩
      cases keys with
      | nil =>
        rw [List.append_nil] at hkeys
        rw [List.nil_append, at?] at hat
        obtain ⟨value, hlook, hat⟩ := Option.bind_eq_some_iff.mp hat
        obtain ⟨⟨level⟩, key, value'⟩ := member
        cases hkeys
        cases hat
        exact ⟨_, mem_of_lookup_eq_some hlook, List.mem_append_right _ (List.mem_singleton.mpr rfl)⟩
      | cons key keys =>
        rw [List.cons_append, at?] at hat
        obtain ⟨value, hlook, hat⟩ := Option.bind_eq_some_iff.mp hat
        have hfield := mem_of_lookup_eq_some hlook
        exact ⟨(key, value), hfield, List.mem_append_left _ ((ih key value hfield (hvalues key value hfield)).mpr
          ⟨keys, by simpa [Address.child] using hkeys, hat⟩)⟩

/-- From the root, the keys of a member's address lead to its value. -/
theorem mem_reached_root {value : Value} (h : value.hasDistinctKeys = true) {member : Member} :
    member ∈ reached .root value ↔ value.at? member.address.keys = some member.value := by
  rw [mem_reached h]
  constructor
  · rintro ⟨keys, hkeys, hat⟩
    rw [Member.address, Address.child, hkeys]
    exact hat
  · exact fun hat => ⟨member.level.keys, rfl, hat⟩

/-- **No address belongs to two members.** -/
theorem nodup_reached {value : Value} : ∀ {base : Address}, value.hasDistinctKeys = true →
    ((reached base value).map Member.address).Nodup := by
  induction value using memberInduction with
  | other value h =>
    intro base _
    rw [reached_eq_nil base h]
    exact List.nodup_nil
  | object fields ih =>
    intro base hd
    obtain ⟨hnd, hvalues⟩ := hasDistinctKeys_object.mp hd
    rw [reached, reachedFrom_eq]
    refine @nodup_flatMap _ _ _ base _ hnd ?_ ?_
    · intro ⟨key, value⟩ hfield
      rw [List.map_append, List.map_singleton, List.nodup_append]
      refine ⟨ih key value hfield (hvalues key value hfield), List.nodup_singleton _, ?_⟩
      intro a ha b hb
      obtain ⟨member, hmem, rfl⟩ := List.mem_map.mp ha
      obtain ⟨keys, hkeys, -⟩ := (mem_reached (hvalues key value hfield)).mp hmem
      rw [List.mem_singleton.mp hb]
      intro e
      simpa [Member.address, Address.child, hkeys] using congrArg Address.keys e
    · intro ⟨key, value⟩ hfield member hmem
      rcases List.mem_append.mp hmem with hmem | hmem
      · obtain ⟨keys, hkeys, -⟩ := (mem_reached (hvalues key value hfield)).mp hmem
        exact ⟨keys ++ [member.key], by simp [Member.address, Address.child, hkeys]⟩
      · rw [List.mem_singleton.mp hmem]
        exact ⟨[], rfl⟩

/-- **Every key on the way to a member is that of a member with an object**, which is reached as well. -/
theorem exists_reached_of_mem_keys {value : Value} : ∀ {base : Address} {member : Member},
    member ∈ value.reached base → ∀ key ∈ member.level.keys, key ∈ base.keys ∨
      ∃ outer ∈ value.reached base, outer.key = key ∧ ∃ members, outer.value = .object members := by
  induction value using memberInduction with
  | other value h =>
    intro base member hmem
    rw [reached_eq_nil base h] at hmem
    cases hmem
  | object fields ih =>
    intro base member hmem key hkey
    rw [reached, reachedFrom_eq] at hmem ⊢
    obtain ⟨⟨name, value⟩, hfield, hmem⟩ := List.mem_flatMap.mp hmem
    rcases List.mem_append.mp hmem with hinner | hself
    · have hobject : ∃ members, value = .object members := by
        by_contra hnot
        rw [reached_eq_nil _ (fun members e => hnot ⟨members, e⟩)] at hinner
        cases hinner
      rcases ih name value hfield hinner key hkey with hbase | ⟨outer, houter, hrest⟩
      · rcases List.mem_append.mp hbase with hbase | hname
        · exact Or.inl hbase
        · refine Or.inr ⟨⟨base, name, value⟩, List.mem_flatMap.mpr ⟨_, hfield, ?_⟩, ?_, hobject⟩
          · exact List.mem_append_right _ (List.mem_singleton_self _)
          · exact (List.mem_singleton.mp hname).symm
      · exact Or.inr ⟨outer, List.mem_flatMap.mpr ⟨_, hfield, List.mem_append_left _ houter⟩, hrest⟩
    · rw [List.mem_singleton.mp hself] at hkey
      exact Or.inl hkey

end Value

end TypedSettings
