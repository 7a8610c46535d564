import TypedSettings.Proofs.Schema.Accept
import TypedSettings.Proofs.Schema.Places
import TypedSettings.Proofs.Schema.Strict
import TypedSettings.Proofs.Value.Order

/-!
# Schemas of documents that differ in the order of keys

Documents that agree have the same schema up to the order of accessors, but for what collisions rename: which keys share
an identifier does not depend on their order, but which of them gets it does.

* `accepts_iff_of_agrees`: agreeing documents are accepted alike;
* `collisionless_iff`: nothing collides just where the strict choice accepts the document, too, and then every accessor
  has the identifier of its key (`identifier_eq_ofKey`);
* `ofValue_sameButOrder`: so both have a schema or neither has, with the same sections, accessors and nulls, and with
  the same identifiers if nothing collides.
-/

namespace TypedSettings

/-! ## What does not depend on the order -/

/-- A section without its accessors. -/
def Section.outline (s : Section) : Address × Nat × Bool := (s.address, s.depth, s.hasLookup)

/-- An accessor without its identifier, and without what is inside the section that it may nest. -/
def Accessor.outline (accessor : Accessor) : Address × String × Category :=
  (accessor.address, accessor.key, accessor.access.category)

/-- Two schemas are the same but for the order of their accessors and for collisions: they have the same sections,
accessors and notices about nulls, and either both tell of collisions or neither does. If neither does, the accessors
have the same identifiers, too. -/
structure Schema.SameButOrder (schema schema' : Schema) : Prop where
  sections : (schema.root.walk.map Section.outline).Perm (schema'.root.walk.map Section.outline)
  accessors : (schema.root.allAccessors.map Accessor.outline).Perm (schema'.root.allAccessors.map Accessor.outline)
  nulls : (schema.notices.filter fun notice => !notice.isCollision).Perm
    (schema'.notices.filter fun notice => !notice.isCollision)
  collisionless : (∀ notice ∈ schema.notices, notice.isCollision = false) ↔
    ∀ notice ∈ schema'.notices, notice.isCollision = false
  identifiers : (∀ notice ∈ schema.notices, notice.isCollision = false) →
    (schema.root.allAccessors.map fun accessor => (accessor.address, accessor.identifier)).Perm
      (schema'.root.allAccessors.map fun accessor => (accessor.address, accessor.identifier))

/-! ## Levels -/

section Levels

variable {onNull : OnNull} {v w : Value} {ms ns : List (String × Value)}

theorem exposes_of_agrees (h : v.agrees w = true) : onNull.exposes v = onNull.exposes w := by
  by_cases hv : v = .null
  · rw [hv, (Value.eq_null_iff_of_agrees h).mp hv]
  · rw [OnNull.exposes_of_ne_null hv,
      OnNull.exposes_of_ne_null fun hw => hv ((Value.eq_null_iff_of_agrees h).mpr hw)]

/-- Values that agree are read alike. -/
theorem readAs_of_agrees {category : Category} (h : v.agrees w = true) (hv : ReadAs onNull v category) :
    ReadAs onNull w category := by
  cases hv with
  | object members =>
    cases w with
    | object ns => exact .object ns
    | _ => cases h
  | array elements =>
    cases w with
    | array ys => exact .array ys
    | _ => cases h
  | string s =>
    cases w with
    | string t => exact .string t
    | _ => cases h
  | null hstring =>
    rw [(Value.eq_null_iff_of_agrees h).mp rfl]
    exact .null hstring
  | bool b =>
    cases w with
    | bool c => exact .bool c
    | _ => cases h
  | @short i hi =>
    cases w with
    | integer j =>
      rw [Value.agrees, beq_iff_eq] at h
      exact h ▸ .short hi
    | _ => cases h
  | @long i hi =>
    cases w with
    | integer j =>
      rw [Value.agrees, beq_iff_eq] at h
      exact h ▸ .long hi
    | _ => cases h
  | float x =>
    cases w with
    | float y => exact .float y
    | _ => cases h

/-- A value is read in one way. -/
theorem ReadAs.unique {category category' : Category} (h : ReadAs onNull v category)
    (h' : ReadAs onNull v category') : category = category' := by
  cases h with
  | short hi =>
    cases h' with
    | short _ => rfl
    | long hi' => exact absurd hi hi'
  | long hi =>
    cases h' with
    | short hi' => exact absurd hi' hi
    | long _ => rfl
  | _ =>
    cases h'
    rfl

theorem matched_exposed (h : Matched SameMember ms ns) :
    Matched SameMember (ms.filter fun member => onNull.exposes member.2)
      (ns.filter fun member => onNull.exposes member.2) :=
  h.filter fun _ _ hsame => exposes_of_agrees hsame.value

/-- The keys of a level that are not skipped are the same. -/
theorem perm_keptKeys (h : Matched SameMember ms ns) : (keptKeys onNull ms).Perm (keptKeys onNull ns) :=
  (matched_exposed h).perm_map fun _ _ hsame => hsame.key

/-- Agreeing nulls are told of alike. -/
theorem Member.Same.nullNotices_eq {m n : Member} (h : m.Same n) : m.nullNotices onNull = n.nullNotices onNull := by
  obtain ⟨level, key, v⟩ := m
  obtain ⟨_, _, w⟩ := n
  obtain ⟨rfl, rfl, hvalue⟩ := h
  dsimp only at hvalue ⊢
  by_cases hv : v = .null
  · rw [hv, (Value.eq_null_iff_of_agrees hvalue).mp hv]
  · rw [Member.nullNotices_eq_nil hv,
      Member.nullNotices_eq_nil fun hw => hv ((Value.eq_null_iff_of_agrees hvalue).mpr hw)]

end Levels

/-! ## Which documents are accepted -/

section Documents

variable {options : Options} {v w : Value}

/-- **Agreeing documents are accepted alike.** -/
theorem accepts_iff_of_agrees (hkeys : v.hasDistinctKeys = true) (h : v.agrees w = true) :
    options.Accepts v ↔ options.Accepts w := by
  have hobjects := @Value.matched_objects v w .root hkeys h
  have hroot : (∃ members, v = .object members) ↔ ∃ members, w = .object members := by
    constructor
    · rintro ⟨ms, rfl⟩
      obtain ⟨ns, hns, -⟩ := Value.matched_of_agrees (Value.hasDistinctKeys_object.mp hkeys).1 h
      exact ⟨ns, hns⟩
    · rintro ⟨ns, rfl⟩
      by_contra hv
      exact Value.ne_object_of_agrees (fun members hmembers => hv ⟨members, hmembers⟩) h ns rfl
  have hnulls : (∀ object ∈ v.objects .root, ∀ member ∈ object.2, member.2 ≠ .null) ↔
      ∀ object ∈ w.objects .root, ∀ member ∈ object.2, member.2 ≠ .null :=
    hobjects.forall_iff fun _ _ hsame => hsame.members.forall_iff fun _ _ hmember =>
      not_congr (Value.eq_null_iff_of_agrees hmember.value)
  have hcollisions : (∀ object ∈ v.objects .root, ((keptKeys options.onNull object.2).map Identifier.ofKey).Nodup) ↔
      ∀ object ∈ w.objects .root, ((keptKeys options.onNull object.2).map Identifier.ofKey).Nodup :=
    hobjects.forall_iff fun _ _ hsame => ((perm_keptKeys hsame.members).map Identifier.ofKey).nodup_iff
  exact ⟨fun ⟨hr, hn, hc⟩ => ⟨hroot.mp hr, fun he => hnulls.mp (hn he), fun he => hcollisions.mp (hc he)⟩,
    fun ⟨hr, hn, hc⟩ => ⟨hroot.mpr hr, fun he => hnulls.mpr (hn he), fun he => hcollisions.mpr (hc he)⟩⟩

/-- A document that is accepted has a schema. -/
theorem exists_schema_of_accepts (h : options.Accepts v) : ∃ schema, Schema.ofValue options v = .ok schema := by
  cases hv : Schema.ofValue options v with
  | ok schema => exact ⟨schema, rfl⟩
  | error error => exact absurd (isOffence_of_ofValue hv) h.not_isOffence

theorem accepts_of_schema {schema : Schema} (h : Schema.ofValue options v = .ok schema) : options.Accepts v := by
  obtain ⟨members, rfl⟩ := exists_object h
  exact accepts_of_ofValue h

end Documents

/-! ## Documents without collisions -/

section Collisionless

variable {options : Options} {v : Value} {schema : Schema}

/-- The strict choice about collisions stops at those of any other. -/
theorem stopsAt_collisions_of (options : Options) :
    { options with onCollision := .error }.StopsAt Notice.collisionError? options where
  null h := nullAccess_judged h
  name h := by
    cases h with
    | natural howner | renamed _ howner =>
      simp only [Owners.name, howner]
      rfl

/-- What the strict choice makes of a document with a schema. -/
theorem ofValue_strict (h : Schema.ofValue options v = .ok schema) :
    Schema.ofValue { options with onCollision := .error } v = judge Notice.collisionError? schema.notices schema := by
  obtain ⟨members, rfl⟩ := exists_object h
  obtain ⟨accessors, hroot, hpass⟩ := exists_pass h
  rw [hpass.ofValue_judged (stopsAt_collisions_of options), ← hroot]

theorem collisionError?_eq_none_iff {notice : Notice} :
    notice.collisionError? = none ↔ notice.isCollision = false := by
  cases notice <;> simp [Notice.collisionError?, Notice.isCollision]

/-- Where nothing collides, the strict choice makes the same schema. -/
theorem ofValue_strict_eq (h : Schema.ofValue options v = .ok schema)
    (hnone : ∀ notice ∈ schema.notices, notice.isCollision = false) :
    Schema.ofValue { options with onCollision := .error } v = .ok schema := by
  have hfirst : schema.notices.findSome? Notice.collisionError? = none :=
    List.findSome?_eq_none_iff.mpr fun notice hmem => collisionError?_eq_none_iff.mpr (hnone notice hmem)
  rw [ofValue_strict h, judge, hfirst]

/-- **Nothing collides just where the strict choice accepts the document, too.** -/
theorem collisionless_iff (h : Schema.ofValue options v = .ok schema) :
    (∀ notice ∈ schema.notices, notice.isCollision = false) ↔
      { options with onCollision := .error }.Accepts v := by
  constructor
  · exact fun hnone => accepts_of_schema (ofValue_strict_eq h hnone)
  · intro haccepts
    obtain ⟨strict, hstrict⟩ := exists_schema_of_accepts haccepts
    rw [ofValue_strict h, judge] at hstrict
    split at hstrict
    · rename_i hfirst
      exact fun notice hmem => collisionError?_eq_none_iff.mp (List.findSome?_eq_none_iff.mp hfirst notice hmem)
    · cases hstrict

/-- Where nothing collides, every accessor has the identifier of its key. -/
theorem identifier_eq_ofKey (h : Schema.ofValue options v = .ok schema)
    (hnone : ∀ notice ∈ schema.notices, notice.isCollision = false) :
    ∀ accessor ∈ schema.root.allAccessors, accessor.identifier = .ofKey accessor.key := by
  obtain ⟨members, rfl⟩ := exists_object h
  intro accessor hmem
  obtain ⟨s, hs, hmem⟩ := mem_allAccessors.mp hmem
  obtain ⟨level, depth, members, accessors, notices, rfl, hpass⟩ :=
    comesOfPass_of_mem_walk (ofValue_strict_eq h hnone) s hs
  have hkeys : accessors.map Accessor.key = keptKeys options.onNull members := by
    rw [keptKeys, ← List.forall₂_eq_eq_eq, List.forall₂_map_left_iff, List.forall₂_map_right_iff]
    exact hpass.exposes.imp fun _ _ hexposes => hexposes.key
  have hidentifiers := hpass.map_identifier rfl
  rw [← hkeys, List.map_map] at hidentifiers
  exact List.map_inj_left.mp hidentifiers accessor hmem

end Collisionless

/-! ## Schemas -/

/-- Two sections mirror the same object, up to the order of its members. -/
def Section.MirrorsSame (onNull : OnNull) (s s' : Section) : Prop :=
  ∃ object object', s.Mirrors onNull object ∧ SameObject object object' ∧ s'.Mirrors onNull object'

section Schemas

variable {options : Options} {v w : Value} {schema schema' : Schema} {s s' : Section}

theorem Section.MirrorsSame.outline_eq {onNull : OnNull} (h : s.MirrorsSame onNull s') : s.outline = s'.outline := by
  obtain ⟨object, object', hs, hsame, hs'⟩ := h
  have haddress : s.address = s'.address := by rw [hs.address, hs'.address, hsame.address]
  have hlookup : s.hasLookup = s'.hasLookup := by
    have hkeys : (∃ member ∈ object.2, Key.isPlain member.1 = false) ↔
        ∃ member ∈ object'.2, Key.isPlain member.1 = false :=
      hsame.members.exists_iff fun _ _ hmember => by rw [hmember.key]
    rw [Bool.eq_iff_iff, hs.hasLookup, hs'.hasLookup, hkeys]
  rw [Section.outline, Section.outline, haddress, hlookup, hs.depth, hs'.depth, hsame.address]

theorem Section.MirrorsSame.perm_outline {onNull : OnNull} (h : s.MirrorsSame onNull s') :
    (s.accessors.map Accessor.outline).Perm (s'.accessors.map Accessor.outline) := by
  obtain ⟨object, object', hs, hsame, hs'⟩ := h
  refine (Matched.carry hs.accessors (matched_exposed hsame.members) hs'.accessors).perm_map ?_
  rintro accessor accessor' ⟨member, member', hexposes, hmember, hexposes'⟩
  have haddress : accessor.address = accessor'.address := by
    rw [hexposes.address, hexposes'.address, hs.address, hs'.address, hsame.address, hmember.key]
  have hkey : accessor.key = accessor'.key := by rw [hexposes.key, hexposes'.key, hmember.key]
  have hcategory := (readAs_of_agrees hmember.value hexposes.access).unique hexposes'.access
  rw [Accessor.outline, Accessor.outline, haddress, hkey, hcategory]

/-- The sections of two schemas mirror the same objects. -/
theorem matched_walk (hkeys : v.hasDistinctKeys = true) (hagrees : v.agrees w = true)
    (h : Schema.ofValue options v = .ok schema) (h' : Schema.ofValue options w = .ok schema') :
    Matched (Section.MirrorsSame options.onNull) schema.root.walk schema'.root.walk := by
  obtain ⟨ms, rfl⟩ := exists_object h
  obtain ⟨ns, rfl⟩ := exists_object h'
  exact .carry (forall₂_mirrors h) (Value.matched_objects hkeys hagrees) (forall₂_mirrors h')

theorem perm_accessors (h : Matched (Section.MirrorsSame options.onNull) schema.root.walk schema'.root.walk) :
    (schema.root.allAccessors.map Accessor.outline).Perm (schema'.root.allAccessors.map Accessor.outline) := by
  rw [Section.allAccessors, Section.allAccessors, List.map_flatMap, List.map_flatMap]
  exact h.perm_flatMap fun _ _ hsame => hsame.perm_outline

theorem perm_nulls (hkeys : v.hasDistinctKeys = true) (hagrees : v.agrees w = true)
    (h : Schema.ofValue options v = .ok schema) (h' : Schema.ofValue options w = .ok schema') :
    (schema.notices.filter fun notice => !notice.isCollision).Perm
      (schema'.notices.filter fun notice => !notice.isCollision) := by
  obtain ⟨ms, rfl⟩ := exists_object h
  obtain ⟨ns, rfl⟩ := exists_object h'
  obtain ⟨_, haccounts⟩ := exists_accounts h
  obtain ⟨_, haccounts'⟩ := exists_accounts h'
  rw [haccounts.nulls, haccounts'.nulls]
  exact (Value.matched_reached hkeys hagrees).perm_flatMap fun _ _ hsame => .of_eq hsame.nullNotices_eq

/-- Where no accessor is renamed, accessors at the same addresses have the same identifiers. -/
theorem perm_identifiers
    (h : (schema.root.allAccessors.map Accessor.outline).Perm (schema'.root.allAccessors.map Accessor.outline))
    (hown : ∀ accessor ∈ schema.root.allAccessors, accessor.identifier = .ofKey accessor.key)
    (hown' : ∀ accessor ∈ schema'.root.allAccessors, accessor.identifier = .ofKey accessor.key) :
    (schema.root.allAccessors.map fun accessor => (accessor.address, accessor.identifier)).Perm
      (schema'.root.allAccessors.map fun accessor => (accessor.address, accessor.identifier)) := by
  have hview : ∀ {accessors : List Accessor}, (∀ accessor ∈ accessors, accessor.identifier = .ofKey accessor.key) →
      (accessors.map fun accessor => (accessor.address, accessor.identifier)) =
        (accessors.map Accessor.outline).map fun outline => (outline.1, .ofKey outline.2.1) := by
    intro accessors hown
    rw [List.map_map]
    exact List.map_congr_left fun accessor hmem => by rw [hown accessor hmem]; rfl
  rw [hview hown, hview hown']
  exact h.map _

/-- **The order of keys matters to nothing but collisions.** -/
theorem ofValue_sameButOrder (options : Options) (hkeys : v.hasDistinctKeys = true) (hagrees : v.agrees w = true) :
    ((∃ schema, Schema.ofValue options v = .ok schema) ↔ ∃ schema', Schema.ofValue options w = .ok schema') ∧
      ∀ schema schema', Schema.ofValue options v = .ok schema → Schema.ofValue options w = .ok schema' →
        schema.SameButOrder schema' := by
  have haccepts : ∀ options : Options, options.Accepts v ↔ options.Accepts w := fun _ =>
    accepts_iff_of_agrees hkeys hagrees
  constructor
  · constructor
    · exact fun ⟨_, h⟩ => exists_schema_of_accepts ((haccepts options).mp (accepts_of_schema h))
    · exact fun ⟨_, h⟩ => exists_schema_of_accepts ((haccepts options).mpr (accepts_of_schema h))
  · intro schema schema' h h'
    have hwalk := matched_walk hkeys hagrees h h'
    have hnone : (∀ notice ∈ schema.notices, notice.isCollision = false) ↔
        ∀ notice ∈ schema'.notices, notice.isCollision = false := by
      rw [collisionless_iff h, collisionless_iff h', haccepts]
    exact ⟨hwalk.perm_map fun _ _ hsame => hsame.outline_eq, perm_accessors hwalk, perm_nulls hkeys hagrees h h', hnone,
      fun hno => perm_identifiers (perm_accessors hwalk) (identifier_eq_ofKey h hno)
        (identifier_eq_ofKey h' (hnone.mp hno))⟩

/-- The hypotheses are met by documents that list the keys of two levels in opposite orders. Nothing collides in them,
so the identifiers are the same, too. -/
theorem ofValue_sameButOrder_reversed : ∃ schema,
    Schema.ofValue {} (.object [("a b", .object [("x", .null), ("y", .integer 1), ("z", .array [])]),
      ("c", .bool true)]) = .ok schema ∧ ∃ schema',
    Schema.ofValue {} (.object [("c", .bool true),
      ("a b", .object [("z", .array []), ("y", .integer 1), ("x", .null)])]) = .ok schema' ∧
    schema.notices.map Notice.message = ["`a b:x` is null; no accessor generated"] ∧ schema.SameButOrder schema' := by
  refine exists_of_isOk (by decide) fun schema h => exists_of_isOk (by decide) fun schema' h' => ⟨?_, ?_⟩
  · apply eq_of_toOption_map_eq h
    decide +kernel
  · exact (ofValue_sameButOrder {} (by decide) (by decide)).2 schema schema' h h'

end Schemas

end TypedSettings
