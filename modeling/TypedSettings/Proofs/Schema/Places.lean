import TypedSettings.Proofs.Schema.Addresses
import TypedSettings.Proofs.Schema.Names

/-!
# Places in a schema

The addresses in a section follow from its own by the keys on the way (`Section.IsAddressed`): an accessor stands at its
key, and a nested section at the accessor that nests it. So whatever is inside a section has an address that begins with
the section's (`prefix_of_mem_walk`), and in a schema an address belongs to one accessor at most
(`eq_of_accessor_address_eq`).
-/

namespace TypedSettings

/-! ## Sections section by section -/

/-- The accessors of a section and of those inside it. -/
def Section.allAccessors (s : Section) : List Accessor := s.walk.flatMap Section.accessors

/-- What holds of a section whenever it holds of those that its accessors nest, holds of every section. -/
theorem Section.nestedInduction {P : Section → Prop}
    (step : ∀ s : Section, (∀ accessor ∈ s.accessors, ∀ child, accessor.access = .nested child → P child) → P s)
    (s : Section) : P s :=
  step s fun _ _ child _ => nestedInduction step child
termination_by sizeOf s
decreasing_by
  rename_i accessor hmem haccess
  have hlt := List.sizeOf_lt_of_mem hmem
  obtain ⟨address, depth, accessors, hasLookup⟩ := s
  obtain ⟨identifier, key, address', access⟩ := accessor
  dsimp only at haccess
  subst haccess
  simp only [Accessor.mk.sizeOf_spec, Access.nested.sizeOf_spec, Section.mk.sizeOf_spec] at hlt ⊢
  omega

section Walk

variable {s t : Section} {accessor : Accessor}

/-- What is inside a section is inside one that it nests, but for the section itself. -/
theorem mem_walk_iff : t ∈ s.walk ↔
    t = s ∨ ∃ accessor ∈ s.accessors, ∃ child, accessor.access = .nested child ∧ t ∈ child.walk := by
  rw [walk_eq, List.mem_cons, walkAccessors_eq, List.mem_flatMap]
  refine or_congr_right (exists_congr fun accessor => and_congr_right fun _ => ?_)
  cases accessor.access with
  | nested child => simp [Section.walkAccess]
  | _ => simp [Section.walkAccess]

theorem mem_allAccessors : accessor ∈ s.allAccessors ↔ ∃ t ∈ s.walk, accessor ∈ t.accessors := List.mem_flatMap

end Walk

/-! ## Addresses by keys -/

/-- The accessors of a section stand at their keys, and the sections that they nest stand where they do. -/
structure Section.IsKeyed (s : Section) : Prop where
  address : ∀ accessor ∈ s.accessors, accessor.address = s.address.child accessor.key
  nested : ∀ accessor ∈ s.accessors, ∀ child, accessor.access = .nested child → child.address = accessor.address

/-- All addresses in a section follow from its own by the keys on the way. -/
def Section.IsAddressed (s : Section) : Prop := ∀ t ∈ s.walk, t.IsKeyed

section Addressed

variable {s t : Section} {accessor : Accessor}

theorem Section.IsAddressed.isKeyed (h : s.IsAddressed) : s.IsKeyed := h s (mem_walk_self s)

theorem Section.IsAddressed.nested (h : s.IsAddressed) {child : Section} (hmem : accessor ∈ s.accessors)
    (haccess : accessor.access = .nested child) : child.IsAddressed := fun t ht =>
  h t (mem_walk_iff.mpr (Or.inr ⟨accessor, hmem, child, haccess, ht⟩))

/-- The address of a nested section is one key longer. -/
theorem Section.IsAddressed.keys_nested (h : s.IsAddressed) {child : Section} (hmem : accessor ∈ s.accessors)
    (haccess : accessor.access = .nested child) : child.address.keys = s.address.keys ++ [accessor.key] := by
  rw [h.isKeyed.nested accessor hmem child haccess, h.isKeyed.address accessor hmem, Address.child]

/-- **What is inside a section has an address that begins with the section's.** -/
theorem prefix_of_mem_walk : s.IsAddressed → t ∈ s.walk → s.address.keys <+: t.address.keys := by
  induction s using Section.nestedInduction with
  | step s ih =>
    intro hs ht
    rcases mem_walk_iff.mp ht with rfl | ⟨accessor, hmem, child, haccess, ht⟩
    · exact List.prefix_refl _
    · have hchild := ih accessor hmem child haccess (hs.nested hmem haccess) ht
      rw [hs.keys_nested hmem haccess] at hchild
      exact (List.prefix_append _ _).trans hchild

end Addressed

/-! ## Schemas -/

section Schemas

variable {options : Options} {members : List (String × Value)} {schema : Schema}

/-- **The addresses in a schema follow from the root's.** -/
theorem isAddressed_of_ofValue (h : Schema.ofValue options (.object members) = .ok schema) :
    schema.root.IsAddressed := by
  intro s hs
  obtain ⟨object, -, hmirrors⟩ := exists_mem_of_forall₂ (forall₂_mirrors h) s hs
  have hexposes := exists_mem_of_forall₂ hmirrors.accessors
  constructor
  · intro accessor hmem
    obtain ⟨member, -, hexposes⟩ := hexposes accessor hmem
    rw [hexposes.address, hexposes.key]
  · intro accessor hmem child haccess
    obtain ⟨member, -, hexposes⟩ := hexposes accessor hmem
    exact hexposes.nested child (by rw [haccess]; rfl)

theorem address_root (h : Schema.ofValue options (.object members) = .ok schema) : schema.root.address = .root := by
  obtain ⟨accessors, hroot, -⟩ := exists_pass h
  rw [hroot]
  rfl

/-- **An address belongs to one accessor at most**, where the keys of the document are distinct. -/
theorem eq_of_accessor_address_eq (hkeys : (Value.object members).hasDistinctKeys = true)
    (h : Schema.ofValue options (.object members) = .ok schema) {accessor other : Accessor}
    (hmem : accessor ∈ schema.root.allAccessors) (hother : other ∈ schema.root.allAccessors)
    (heq : accessor.address = other.address) : accessor = other := by
  obtain ⟨accounts, haccounts⟩ := exists_accounts h
  have hnd : (schema.root.exposures.map (·.accessor.address)).Nodup :=
    List.pairwise_map.mpr (haccounts.pairwise_ne (Value.nodup_reached hkeys))
  have hexposed : ∀ accessor ∈ schema.root.allAccessors,
      ∃ exposure ∈ schema.root.exposures, exposure.accessor = accessor := by
    intro accessor hmem
    obtain ⟨s, hs, hmem⟩ := mem_allAccessors.mp hmem
    obtain ⟨before, after, hsplit⟩ := List.append_of_mem hmem
    exact ⟨⟨s, before, accessor⟩, Section.mem_exposures.mpr ⟨hs, after, hsplit⟩, rfl⟩
  obtain ⟨exposure, hexposure, rfl⟩ := hexposed accessor hmem
  obtain ⟨exposure', hexposure', rfl⟩ := hexposed other hother
  exact congrArg Exposure.accessor (List.inj_on_of_nodup_map hnd hexposure hexposure' heq)

end Schemas

end TypedSettings
