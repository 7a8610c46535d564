import TypedSettings.Proofs.Schema.Places
import TypedSettings.Proofs.Schema.Strict

/-!
# Appending a member

A member that is appended to an object of a document renames nothing: an identifier depends only on the members before
it.

* `Pass.split`: a pass over members is one over the first of them, with any pass behind it that starts from the
  identifiers given out so far;
* `Pass.exists_gains`: so the section of the object gains accessors at its end, and the sections around it are the same
  but for what they nest (`Section.Gains`);
* `ofValue_withMember`: so, with lenient choices, all accessors and all other sections are kept (`Schema.IsKeptBy`).
-/

namespace TypedSettings

/-! ## Documents with a member appended -/

/-- The value with a member appended to the object that a list of keys leads to. -/
def Value.withMember : Value → List String → String → Value → Value
  | .object members, [], key, value => .object (members ++ [(key, value)])
  | .object members, step :: level, key, value =>
    match members.lookup step with
    | some child => .object (put step (child.withMember level key value) members)
    | none => .object members
  | other, _, _, _ => other

section Documents

variable {members inner before after : List (String × Value)} {step key : String} {level : List String}
  {child value : Value}

theorem Value.put_append_cons (h : ∀ member ∈ before, step ≠ member.1) (v : Value) :
    put step v (before ++ (step, child) :: after) = before ++ (step, v) :: after := by
  induction before with
  | nil => rw [List.nil_append, put, if_pos rfl, List.nil_append]
  | cons member before ih =>
    obtain ⟨k, w⟩ := member
    obtain ⟨hne, hrest⟩ := List.forall_mem_cons.mp h
    rw [List.cons_append, put, if_neg (Ne.symm hne), ih hrest, List.cons_append]

/-- Keys that lead to an object take their first step at a member with an object. -/
theorem Value.exists_step (h : (Value.object members).at? (step :: level) = some (.object inner)) :
    ∃ before below after, members = before ++ (step, .object below) :: after ∧
      (Value.object below).at? level = some (.object inner) ∧
      ∀ key value, (Value.object members).withMember (step :: level) key value =
        .object (before ++ (step, (Value.object below).withMember level key value) :: after) := by
  rw [at?] at h
  obtain ⟨child, hlookup, hat⟩ := Option.bind_eq_some_iff.mp h
  have hchild : ∃ below, child = .object below := by
    by_contra hnot
    exact at?_ne_object (fun below hbelow => hnot ⟨below, hbelow⟩) level inner hat
  obtain ⟨below, rfl⟩ := hchild
  obtain ⟨before, after, rfl, hbefore⟩ := List.lookup_eq_some_iff.mp hlookup
  refine ⟨before, below, after, rfl, hat, fun key value => ?_⟩
  rw [withMember, hlookup]
  dsimp only
  rw [put_append_cons fun member hmem => by simpa using hbefore member hmem]

/-- Only the object that the keys lead to gets the member. -/
example : (Value.object [("s", .object [("a", .null)]), ("t", .bool true)]).withMember ["s"] "b" .null =
    .object [("s", .object [("a", .null), ("b", .null)]), ("t", .bool true)] := by rfl

/-- A new key leaves the keys of a document distinct. -/
theorem Value.hasDistinctKeys_withMember (hvalue : value.hasDistinctKeys = true) (hkey : key ∉ inner.map Prod.fst) :
    ∀ {level : List String} {members : List (String × Value)}, (Value.object members).hasDistinctKeys = true →
      (Value.object members).at? level = some (.object inner) →
      ((Value.object members).withMember level key value).hasDistinctKeys = true
  | [], members, hd, hat => by
    obtain rfl : members = inner := by
      cases hat
      rfl
    obtain ⟨hnd, hvalues⟩ := hasDistinctKeys_object.mp hd
    rw [withMember, hasDistinctKeys_object]
    constructor
    · rw [List.map_append, List.map_singleton]
      exact hnd.append (List.nodup_singleton _) (List.disjoint_singleton.mpr hkey)
    · intro k v hmem
      rcases List.mem_append.mp hmem with hmem | hmem
      · exact hvalues k v hmem
      · cases List.mem_singleton.mp hmem
        exact hvalue
  | step :: level, members, hd, hat => by
    obtain ⟨before, below, after, rfl, hbelow, hmember⟩ := exists_step hat
    obtain ⟨hnd, hvalues⟩ := hasDistinctKeys_object.mp hd
    rw [hmember, hasDistinctKeys_object]
    constructor
    · rw [List.map_append, List.map_cons] at hnd ⊢
      exact hnd
    · intro k v hmem
      rcases List.mem_append.mp hmem with hmem | hmem
      · exact hvalues k v (List.mem_append_left _ hmem)
      · rcases List.mem_cons.mp hmem with hmem | hmem
        · cases hmem
          exact hasDistinctKeys_withMember hvalue hkey
            (hvalues _ _ (List.mem_append_right _ List.mem_cons_self)) hbelow
        · exact hvalues k v (List.mem_append_right _ (List.mem_cons_of_mem _ hmem))

end Documents

/-! ## Passes member by member -/

section Passes

variable {options : Options} {level : Address} {depth : Nat} {owners : Owners} {members : List (String × Value)}
  {accessors : List Accessor} {notices : List Notice}

/-- **A pass over members goes on behind the first of them**, and any other pass may go on there. -/
theorem Pass.split : ∀ {before rest : List (String × Value)} {owners : Owners} {accessors : List Accessor}
    {notices : List Notice}, Pass options level depth owners (before ++ rest) accessors notices →
    ∃ owners' first second told more, accessors = first ++ second ∧ notices = told ++ more ∧
      Pass options level depth owners' rest second more ∧
      ∀ {rest' second' more'}, Pass options level depth owners' rest' second' more' →
        Pass options level depth owners (before ++ rest') (first ++ second') (told ++ more')
  | [], _, owners, accessors, notices, h => ⟨owners, [], accessors, [], notices, rfl, rfl, h, fun h' => h'⟩
  | _ :: before, _, _, _, _, h => by
    cases h with
    | skipped hskip hmembers =>
      obtain ⟨owners', first, second, told, more, rfl, rfl, hrest, hglue⟩ := hmembers.split
      exact ⟨owners', first, second, _ :: told, more, rfl, rfl, hrest, fun h' => .skipped hskip (hglue h')⟩
    | leaf hleaf hnamed hmembers =>
      obtain ⟨owners', first, second, told, more, rfl, rfl, hrest, hglue⟩ := hmembers.split
      refine ⟨owners', _ :: first, second, _ ++ told, more, rfl, (List.append_assoc _ _ _).symm, hrest, ?_⟩
      intro _ _ _ h'
      rw [List.append_assoc]
      exact .leaf hleaf hnamed (hglue h')
    | object hinner hnamed hmembers =>
      obtain ⟨owners', first, second, told, more, rfl, rfl, hrest, hglue⟩ := hmembers.split
      refine ⟨owners', _ :: first, second, _ ++ told, more, rfl, (List.append_assoc _ _ _).symm, hrest, ?_⟩
      intro _ _ _ h'
      rw [List.append_assoc]
      exact .object hinner hnamed (hglue h')

/-- The accessors of a level have keys of its members. -/
theorem Pass.key_mem (h : Pass options level depth owners members accessors notices) :
    ∀ accessor ∈ accessors, accessor.key ∈ members.map Prod.fst := by
  intro accessor hmem
  obtain ⟨member, hmember, hexposes⟩ := exists_mem_of_forall₂ h.exposes accessor hmem
  exact List.mem_map.mpr ⟨member, (List.mem_filter.mp hmember).1, hexposes.key.symm⟩

end Passes

/-! ## Sections that gain accessors -/

/-- `Gains key level s s'` says that the section to which the keys `level` lead from `s` gains accessors of `key` at its
end, and that `s'` is otherwise the same as `s`. -/
inductive Section.Gains (key : String) : List String → Section → Section → Prop
  | here {address : Address} {depth : Nat} {accessors more : List Accessor} {hasLookup hasLookup' : Bool} :
      (∀ accessor ∈ more, accessor.key = key) →
      Gains key [] ⟨address, depth, accessors, hasLookup⟩ ⟨address, depth, accessors ++ more, hasLookup'⟩
  | inside {address place : Address} {depth : Nat} {before after : List Accessor} {hasLookup : Bool}
      {identifier : Identifier} {step : String} {child child' : Section} {level : List String} :
      Gains key level child child' →
      Gains key (step :: level) ⟨address, depth, before ++ ⟨identifier, step, place, .nested child⟩ :: after, hasLookup⟩
        ⟨address, depth, before ++ ⟨identifier, step, place, .nested child'⟩ :: after, hasLookup⟩

/-- The lookup of a section depends on the keys of its object only. -/
theorem sectionOf_append_cons (level : Address) (depth : Nat) (before after : List (String × Value)) (step : String)
    (v : Value) (accessors : List Accessor) :
    Schema.sectionOf level depth (before ++ (step, v) :: after) accessors = ⟨level, depth, accessors,
      before.any (fun member => !Key.isPlain member.1) ||
        (!Key.isPlain step || after.any fun member => !Key.isPlain member.1)⟩ := by
  rw [Schema.sectionOf, List.any_append, List.any_cons]

/-- **The section of an object gains what is appended to the object.** -/
theorem Pass.exists_gains {options : Options} (hlenient : options.IsLenient) (key : String) (value : Value)
    {inner : List (String × Value)} : ∀ {keys : List String} {level : Address} {depth : Nat}
    {members : List (String × Value)} {accessors : List Accessor} {notices : List Notice},
    Pass options level depth .empty members accessors notices →
    (Value.object members).at? keys = some (.object inner) →
    ∃ members' accessors' notices', (Value.object members).withMember keys key value = .object members' ∧
      Pass options level depth .empty members' accessors' notices' ∧
      (Schema.sectionOf level depth members accessors).Gains key keys
        (Schema.sectionOf level depth members' accessors')
  | [], level, depth, members, accessors, notices, h, _ => by
    rw [← List.append_nil members] at h
    obtain ⟨owners, first, second, told, more, rfl, rfl, hnone, hglue⟩ := h.split
    cases hnone
    obtain ⟨added, about, hadded⟩ := exists_pass_of_lenient hlenient level depth owners [(key, value)]
    refine ⟨_, _, _, rfl, hglue hadded, ?_⟩
    rw [List.append_nil]
    exact .here fun accessor hmem => List.mem_singleton.mp (hadded.key_mem accessor hmem)
  | step :: keys, level, depth, members, accessors, notices, h, hat => by
    obtain ⟨before, below, after, rfl, hbelow, hmember⟩ := Value.exists_step hat
    obtain ⟨owners, first, second, told, more, rfl, rfl, hrest, hglue⟩ := h.split
    cases hrest with
    | leaf hleaf _ _ => exact absurd rfl (hleaf.ne_object below)
    | object hinner hnamed hmembers =>
      obtain ⟨below', children', about', hbelow', hinner', hgains⟩ := exists_gains hlenient key value hinner hbelow
      refine ⟨_, _, _, ?_, hglue (.object hinner' hnamed hmembers), ?_⟩
      · rw [hmember, hbelow']
      · rw [sectionOf_append_cons, sectionOf_append_cons]
        exact .inside hgains

/-! ## What is kept -/

/-- An accessor is kept by another one: it stands at the same address, with the same key and identifier, and gives the
same, but for what is inside the section that it may nest. -/
structure Accessor.IsKeptBy (accessor other : Accessor) : Prop where
  address : other.address = accessor.address
  key : other.key = accessor.key
  identifier : other.identifier = accessor.identifier
  category : other.access.category = accessor.access.category
  access : accessor.access.isNested = false → other.access = accessor.access

theorem Accessor.isKeptBy_self (accessor : Accessor) : accessor.IsKeptBy accessor :=
  ⟨rfl, rfl, rfl, rfl, fun _ => rfl⟩

section Walks

variable {address place : Address} {depth : Nat} {before after accessors more : List Accessor}
  {hasLookup hasLookup' : Bool} {identifier : Identifier} {step : String} {s child t : Section} {accessor : Accessor}

theorem mem_allAccessors_iff_walkAccessors : accessor ∈ s.allAccessors ↔
    accessor ∈ s.accessors ∨ ∃ t ∈ Section.walkAccessors s.accessors, accessor ∈ t.accessors := by
  simp only [mem_allAccessors, walk_eq, List.mem_cons, exists_eq_or_imp]

theorem mem_walkAccessors_append :
    t ∈ Section.walkAccessors (accessors ++ more) ↔
      t ∈ Section.walkAccessors accessors ∨ t ∈ Section.walkAccessors more := by
  simp only [walkAccessors_eq, List.flatMap_append, List.mem_append]

theorem mem_walkAccessors_append_cons : t ∈ Section.walkAccessors (before ++ accessor :: after) ↔
    t ∈ Section.walkAccess accessor.access ∨ t ∈ Section.walkAccessors (before ++ after) := by
  rw [walkAccessors_eq, walkAccessors_eq, (List.perm_middle.flatMap_right _).mem_iff, List.flatMap_cons,
    List.mem_append]

/-- What is inside a section with more accessors. -/
theorem mem_walk_append : t ∈ Section.walk ⟨address, depth, accessors ++ more, hasLookup⟩ ↔
    t = ⟨address, depth, accessors ++ more, hasLookup⟩ ∨ t ∈ Section.walkAccessors accessors ∨
      t ∈ Section.walkAccessors more := by
  rw [walk_eq, List.mem_cons, mem_walkAccessors_append]

theorem mem_allAccessors_append :
    accessor ∈ Section.allAccessors ⟨address, depth, accessors ++ more, hasLookup⟩ ↔
      accessor ∈ Section.allAccessors ⟨address, depth, accessors, hasLookup'⟩ ∨
        accessor ∈ more ∨ ∃ t ∈ Section.walkAccessors more, accessor ∈ t.accessors := by
  simp only [mem_allAccessors_iff_walkAccessors, List.mem_append, mem_walkAccessors_append, or_and_right, exists_or]
  rw [or_or_or_comm]

/-- What is inside a section is inside the section of one accessor, or inside those of the others. -/
theorem mem_walk_inside :
    t ∈ Section.walk ⟨address, depth, before ++ ⟨identifier, step, place, .nested child⟩ :: after, hasLookup⟩ ↔
      t = ⟨address, depth, before ++ ⟨identifier, step, place, .nested child⟩ :: after, hasLookup⟩ ∨
        t ∈ child.walk ∨ t ∈ Section.walkAccessors (before ++ after) := by
  rw [walk_eq, List.mem_cons, mem_walkAccessors_append_cons, Section.walkAccess]

theorem mem_allAccessors_inside :
    accessor ∈ Section.allAccessors
        ⟨address, depth, before ++ ⟨identifier, step, place, .nested child⟩ :: after, hasLookup⟩ ↔
      accessor = ⟨identifier, step, place, .nested child⟩ ∨ accessor ∈ child.allAccessors ∨
        accessor ∈ before ++ after ∨ ∃ t ∈ Section.walkAccessors (before ++ after), accessor ∈ t.accessors := by
  rw [mem_allAccessors_iff_walkAccessors, List.perm_middle.mem_iff, List.mem_cons, mem_allAccessors]
  simp only [mem_walkAccessors_append_cons, Section.walkAccess, or_and_right, exists_or]
  rw [or_or_or_comm, or_assoc]

/-- The addresses inside follow from the section's and one more key. -/
theorem Section.IsAddressed.inside
    (h : IsAddressed ⟨address, depth, before ++ ⟨identifier, step, place, .nested child⟩ :: after, hasLookup⟩) :
    child.IsAddressed ∧ child.address.keys = address.keys ++ [step] :=
  have hmem := List.mem_append_right before (List.mem_cons_self (a := ⟨identifier, step, place, .nested child⟩))
  ⟨h.nested hmem rfl, h.keys_nested hmem rfl⟩

variable {key : String} (hs : s.IsAddressed) (hmore : more ⊆ s.accessors)
  (hkey : ∀ accessor ∈ more, accessor.key = key)

include hs hmore hkey

/-- What is inside the accessors of a key has an address that begins with the section's and the key. -/
theorem prefix_of_mem_walkAccessors (ht : t ∈ Section.walkAccessors more) :
    s.address.keys ++ [key] <+: t.address.keys := by
  rw [walkAccessors_eq, List.mem_flatMap] at ht
  obtain ⟨accessor, hmem, ht⟩ := ht
  cases haccess : accessor.access with
  | nested child =>
    rw [haccess, Section.walkAccess] at ht
    rw [← hkey accessor hmem, ← hs.keys_nested (hmore hmem) haccess]
    exact prefix_of_mem_walk (hs.nested (hmore hmem) haccess) ht
  | _ =>
    rw [haccess, Section.walkAccess] at ht
    cases ht

theorem prefix_of_mem_or (h : accessor ∈ more ∨ ∃ t ∈ Section.walkAccessors more, accessor ∈ t.accessors) :
    s.address.keys ++ [key] <+: accessor.address.keys := by
  rcases h with hmem | ⟨t, ht, hmem⟩
  · rw [hs.isKeyed.address accessor (hmore hmem), hkey accessor hmem]
    exact List.prefix_refl _
  · have hbelow : t ∈ s.walk := by
      rw [walkAccessors_eq] at ht
      obtain ⟨outer, houter, ht⟩ := List.mem_flatMap.mp ht
      rw [walk_eq, walkAccessors_eq]
      exact List.mem_cons_of_mem _ (List.mem_flatMap.mpr ⟨outer, hmore houter, ht⟩)
    rw [(hs t hbelow).address accessor hmem, Address.child]
    exact (prefix_of_mem_walkAccessors hs hmore hkey ht).trans (List.prefix_append _ _)

end Walks

namespace Section.Gains

variable {key : String} {level : List String} {s s' : Section}

/-- **Accessors are kept.** -/
theorem exists_isKeptBy (h : s.Gains key level s') :
    ∀ accessor ∈ s.allAccessors, ∃ other ∈ s'.allAccessors, accessor.IsKeptBy other := by
  induction h with
  | here _ =>
    exact fun accessor hmem => ⟨accessor, mem_allAccessors_append.mpr (Or.inl hmem), accessor.isKeptBy_self⟩
  | inside _ ih =>
    intro accessor hmem
    rcases mem_allAccessors_inside.mp hmem with rfl | hchild | hrest
    · exact ⟨_, mem_allAccessors_inside.mpr (Or.inl rfl), ⟨rfl, rfl, rfl, rfl, fun h => by cases h⟩⟩
    · obtain ⟨other, hother, hkept⟩ := ih accessor hchild
      exact ⟨other, mem_allAccessors_inside.mpr (Or.inr (Or.inl hother)), hkept⟩
    · exact ⟨accessor, mem_allAccessors_inside.mpr (Or.inr (Or.inr hrest)), accessor.isKeptBy_self⟩

/-- **What is new among accessors is at or below the key that is appended.** -/
theorem exists_isKeptBy_or (h : s.Gains key level s') : s'.IsAddressed → ∀ other ∈ s'.allAccessors,
    (∃ accessor ∈ s.allAccessors, accessor.IsKeptBy other) ∨
      s'.address.keys ++ level ++ [key] <+: other.address.keys := by
  induction h with
  | here hmore =>
    intro hs other hmem
    rw [List.append_nil]
    exact (mem_allAccessors_append.mp hmem).imp (fun hold => ⟨other, hold, other.isKeptBy_self⟩)
      (prefix_of_mem_or hs (List.subset_append_right _ _) hmore)
  | inside _ ih =>
    intro hs other hmem
    rcases mem_allAccessors_inside.mp hmem with rfl | hchild | hrest
    · exact Or.inl ⟨_, mem_allAccessors_inside.mpr (Or.inl rfl), ⟨rfl, rfl, rfl, rfl, fun h => by cases h⟩⟩
    · obtain ⟨hchildren, hkeys⟩ := hs.inside
      have hnew := ih hchildren other hchild
      rw [hkeys, ← List.append_cons] at hnew
      refine hnew.imp_left ?_
      rintro ⟨accessor, hmem, hkept⟩
      exact ⟨accessor, mem_allAccessors_inside.mpr (Or.inr (Or.inl hmem)), hkept⟩
    · exact Or.inl ⟨other, mem_allAccessors_inside.mpr (Or.inr (Or.inr hrest)), other.isKeptBy_self⟩

/-- **Sections are kept**, but for those on the way to the one that gains accessors. -/
theorem mem_walk (h : s.Gains key level s') : s.IsAddressed → ∀ t ∈ s.walk,
    t.address.keys <+: s.address.keys ++ level ∨ t ∈ s'.walk := by
  induction h with
  | here _ =>
    intro _ t ht
    rw [walk_eq, List.mem_cons] at ht
    rcases ht with rfl | ht
    · exact Or.inl (List.prefix_append _ _)
    · exact Or.inr (mem_walk_append.mpr (Or.inr (Or.inl ht)))
  | inside _ ih =>
    intro hs t ht
    rcases mem_walk_inside.mp ht with rfl | hchild | hrest
    · exact Or.inl (List.prefix_append _ _)
    · obtain ⟨hchildren, hkeys⟩ := hs.inside
      have hkept := ih hchildren t hchild
      rw [hkeys, ← List.append_cons] at hkept
      exact hkept.imp_right fun hmem => mem_walk_inside.mpr (Or.inr (Or.inl hmem))
    · exact Or.inr (mem_walk_inside.mpr (Or.inr (Or.inr hrest)))

/-- **What is new among sections is at or below the key that is appended**, or on the way to it. -/
theorem mem_walk_or (h : s.Gains key level s') : s'.IsAddressed → ∀ t ∈ s'.walk,
    t.address.keys <+: s'.address.keys ++ level ∨ t ∈ s.walk ∨
      s'.address.keys ++ level ++ [key] <+: t.address.keys := by
  induction h with
  | here hmore =>
    intro hs t ht
    rw [List.append_nil, walk_eq, List.mem_cons]
    rcases mem_walk_append.mp ht with rfl | hold | hnew
    · exact Or.inl (List.prefix_refl _)
    · exact Or.inr (Or.inl (Or.inr hold))
    · exact Or.inr (Or.inr (prefix_of_mem_walkAccessors hs (List.subset_append_right _ _) hmore hnew))
  | inside _ ih =>
    intro hs t ht
    rcases mem_walk_inside.mp ht with rfl | hchild | hrest
    · exact Or.inl (List.prefix_append _ _)
    · obtain ⟨hchildren, hkeys⟩ := hs.inside
      have hnew := ih hchildren t hchild
      rw [hkeys, ← List.append_cons] at hnew
      exact hnew.imp_right (Or.imp_left fun hmem => mem_walk_inside.mpr (Or.inr (Or.inl hmem)))
    · exact Or.inr (Or.inl (mem_walk_inside.mpr (Or.inr (Or.inr hrest))))

end Section.Gains

/-! ## Schemas -/

/-- A schema is kept by another one, in which something of `key` is new at the level to which the keys `level` lead: its
accessors are kept, each by the one accessor at its address, its sections are there as well, but for those on the way
from the root to the level, and what is new is at or below the key. -/
structure Schema.IsKeptBy (level : List String) (key : String) (schema schema' : Schema) : Prop where
  accessors : ∀ accessor ∈ schema.root.allAccessors, ∃ other ∈ schema'.root.allAccessors, accessor.IsKeptBy other ∧
    ∀ another ∈ schema'.root.allAccessors, another.address = accessor.address → another = other
  newAccessors : ∀ other ∈ schema'.root.allAccessors,
    (∃ accessor ∈ schema.root.allAccessors, accessor.address = other.address) ∨ level ++ [key] <+: other.address.keys
  sections : ∀ s ∈ schema.root.walk, ¬s.address.keys <+: level →
    s ∈ schema'.root.walk ∧ ∀ t ∈ schema'.root.walk, t.address = s.address → t = s
  newSections : ∀ t ∈ schema'.root.walk, ¬t.address.keys <+: level →
    t ∈ schema.root.walk ∨ level ++ [key] <+: t.address.keys

section Schemas

variable {options : Options} {members inner : List (String × Value)} {level : List String} {key : String}
  {value : Value}

/-- **Appending a member renames nothing.** With lenient choices, the document with the member has a schema that keeps
all that the schema of the document has. -/
theorem ofValue_withMember (hlenient : options.IsLenient) (hkeys : (Value.object members).hasDistinctKeys = true)
    (hvalue : value.hasDistinctKeys = true) (hat : (Value.object members).at? level = some (.object inner))
    (hkey : key ∉ inner.map Prod.fst) : ∃ schema schema',
      Schema.ofValue options (.object members) = .ok schema ∧
      Schema.ofValue options ((Value.object members).withMember level key value) = .ok schema' ∧
      schema.IsKeptBy level key schema' := by
  obtain ⟨accessors, notices, hpass⟩ := exists_pass_of_lenient hlenient .root 0 .empty members
  obtain ⟨members', accessors', notices', hmembers', hpass', hgains⟩ :=
    hpass.exists_gains hlenient key value hat
  have hkeys' := Value.hasDistinctKeys_withMember hvalue hkey hkeys hat
  rw [hmembers'] at hkeys' ⊢
  have hschema := hpass.ofValue_eq
  have hschema' := hpass'.ofValue_eq
  have haddressed := isAddressed_of_ofValue hschema
  have haddressed' := isAddressed_of_ofValue hschema'
  refine ⟨_, _, hschema, hschema', ?_, ?_, ?_, ?_⟩
  · intro accessor hmem
    obtain ⟨other, hother, hkept⟩ := hgains.exists_isKeptBy accessor hmem
    exact ⟨other, hother, hkept, fun another hanother heq =>
      eq_of_accessor_address_eq hkeys' hschema' hanother hother (heq.trans hkept.address.symm)⟩
  · intro other hother
    refine (hgains.exists_isKeptBy_or haddressed' other hother).imp_left ?_
    exact fun ⟨accessor, hmem, hkept⟩ => ⟨accessor, hmem, hkept.address.symm⟩
  · intro s hs hway
    have hmem := (hgains.mem_walk haddressed s hs).resolve_left hway
    exact ⟨hmem, fun t ht heq => eq_of_address_eq hkeys' hschema' ht hmem heq⟩
  · intro t ht hway
    exact (hgains.mem_walk_or haddressed' t ht).resolve_left hway

/-- The hypotheses are met by a key whose own identifier an earlier key has got by a number. -/
theorem ofValue_withMember_taken : ∃ schema schema',
    Schema.ofValue {} (.object [("s", .object [("c", .null), ("d", .array []), ("D", .object [])]),
      ("t", .object [])]) = .ok schema ∧
    Schema.ofValue {} ((Value.object [("s", .object [("c", .null), ("d", .array []), ("D", .object [])]),
      ("t", .object [])]).withMember ["s"] "d2" (.object [("x", .bool true)])) = .ok schema' ∧
    schema'.root.allAccessors.map (fun accessor => accessor.identifier.text) = ["S", "T", "D", "D2", "D22", "X"] ∧
    schema.IsKeptBy ["s"] "d2" schema' := by
  obtain ⟨schema, schema', h, h', hkept⟩ := @ofValue_withMember {}
    [("s", .object [("c", .null), ("d", .array []), ("D", .object [])]), ("t", .object [])] _ ["s"] "d2"
    (.object [("x", .bool true)]) ⟨by decide, rfl⟩ (by decide) (by decide) rfl (by decide)
  refine ⟨schema, schema', h, h', ?_, hkept⟩
  apply eq_of_toOption_map_eq h'
  decide

end Schemas

end TypedSettings
