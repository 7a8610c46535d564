import TypedSettings.Proofs.Schema.Accept
import TypedSettings.Proofs.Schema.Account

/-!
# What collisions say

The wording of a collision says that both keys have the identifier (`BothHave`). That is so in every error, and of the
second key in every notice. The first key of a notice owns the identifier, which need not be that of the key: a notice
says too much where its first key was renamed itself (`Schema.Renames`), and only there.

* `exists_collides`, `exists_collision`: collisions are told of the renamed accessors, and of each of them;
* `exists_exposure_of_mem_before`: the owner of the identifier is an accessor with an exposure of its own;
* `ofValue_tellsCollisions`: which collisions are as they are worded.
-/

namespace TypedSettings

/-- What the wording of a collision says of its keys: both have the identifier. -/
structure BothHave (identifier : Identifier) (first second : String) : Prop where
  first : Identifier.ofKey first = identifier
  second : Identifier.ofKey second = identifier

instance (identifier : Identifier) (first second : String) : Decidable (BothHave identifier first second) :=
  decidable_of_iff (Identifier.ofKey first = identifier ∧ Identifier.ofKey second = identifier)
    ⟨fun h => ⟨h.1, h.2⟩, fun h => ⟨h.first, h.second⟩⟩

/-- A notice of the schema tells that a key of a level is exposed under an identifier that it got with a number. -/
def Schema.Renames (schema : Schema) (level key : String) (identifier : Identifier) : Prop :=
  ∃ first natural, .nameCollision level first key natural identifier ∈ schema.notices

/-- Which collisions are as they are worded, for a document: all errors, and all notices whose first key is not
renamed. -/
structure Options.TellsCollisions (options : Options) (value : Value) : Prop where
  errors : ∀ level first second identifier,
    Schema.ofValue options value = .error (.nameCollision level first second identifier) →
    BothHave identifier first second
  notices : ∀ schema, Schema.ofValue options value = .ok schema → ∀ level first second identifier resolved,
    .nameCollision level first second identifier resolved ∈ schema.notices →
    Identifier.ofKey second = identifier ∧ (BothHave identifier first second ↔ ¬schema.Renames level first identifier)

/-! ## Collisions and renamed accessors -/

section Schemas

variable {options : Options} {value : Value} {schema : Schema} {notice : Notice} {exposure : Exposure}

/-- What a collision says of the accessor that it is told of. -/
theorem Exposure.Collides.spec {level first second : String} {identifier resolved : Identifier}
    (h : exposure.Collides (.nameCollision level first second identifier resolved)) :
    exposure.owner.address.levelName = level ∧ exposure.accessor.key = second ∧ Identifier.ofKey second = identifier ∧
      exposure.accessor.identifier = resolved ∧
      ∃ owner ∈ exposure.before, owner.identifier = identifier ∧ owner.key = first := by
  generalize hnotice : Notice.nameCollision level first second identifier resolved = notice at h
  cases h with
  | intro howner hidentifier =>
    injection hnotice with hlevel hfirst hsecond hnatural hresolved
    subst hsecond hnatural
    exact ⟨hlevel.symm, rfl, rfl, hresolved.symm, _, howner, hidentifier, hfirst.symm⟩

/-- A collision is told of a renamed accessor. -/
theorem exists_collides (h : Schema.ofValue options value = .ok schema) (hmem : notice ∈ schema.notices)
    (hcollision : notice.isCollision = true) :
    ∃ exposure ∈ schema.root.exposures, exposure.isRenamed = true ∧ exposure.Collides notice := by
  obtain ⟨members, rfl⟩ := exists_object h
  obtain ⟨accounts, haccounts⟩ := exists_accounts h
  obtain ⟨exposure, hexposure, hcollides⟩ := exists_mem_of_forall₂ haccounts.collisions.flip notice
    (List.mem_filter.mpr ⟨hmem, hcollision⟩)
  obtain ⟨hexposure, hrenamed⟩ := List.mem_filter.mp hexposure
  exact ⟨exposure, hexposure, hrenamed, hcollides⟩

/-- Of every renamed accessor a collision is told. -/
theorem exists_collision (h : Schema.ofValue options value = .ok schema) (hmem : exposure ∈ schema.root.exposures)
    (hrenamed : exposure.isRenamed = true) : ∃ notice ∈ schema.notices, exposure.Collides notice := by
  obtain ⟨members, rfl⟩ := exists_object h
  obtain ⟨accounts, haccounts⟩ := exists_accounts h
  obtain ⟨notice, hnotice, hcollides⟩ := exists_mem_of_forall₂ haccounts.collisions exposure
    (List.mem_filter.mpr ⟨hmem, hrenamed⟩)
  exact ⟨notice, (List.mem_filter.mp hnotice).1, hcollides⟩

/-- An accessor that stands before another one is listed where it stands. -/
theorem exists_exposure_of_mem_before {s : Section} (hmem : exposure ∈ s.exposures) {first : Accessor}
    (hfirst : first ∈ exposure.before) : ∃ before, ⟨exposure.owner, before, first⟩ ∈ s.exposures := by
  obtain ⟨howner, after, haccessors⟩ := Section.mem_exposures.mp hmem
  obtain ⟨before, between, hbefore⟩ := List.append_of_mem hfirst
  refine ⟨before, Section.mem_exposures.mpr ⟨howner, between ++ exposure.accessor :: after, ?_⟩⟩
  rw [haccessors, hbefore, List.append_assoc, List.cons_append]

/-- **A notice says too much where its first key is renamed**, and only there. -/
theorem bothHave_iff_of_mem (h : Schema.ofValue options value = .ok schema) {level first second : String}
    {identifier resolved : Identifier}
    (hmem : .nameCollision level first second identifier resolved ∈ schema.notices) :
    Identifier.ofKey second = identifier ∧
      (BothHave identifier first second ↔ ¬schema.Renames level first identifier) := by
  obtain ⟨exposure, hexposure, -, hcollides⟩ := exists_collides h hmem rfl
  obtain ⟨rfl, -, rfl, -, owner, howner, hidentifier, rfl⟩ := hcollides.spec
  refine ⟨rfl, ⟨?_, fun hnot => ⟨?_, rfl⟩⟩⟩
  · -- a key that is renamed to the identifier has another one of its own
    rintro hboth ⟨other, natural, hother⟩
    obtain ⟨renamed, -, hrenamed, hcollides'⟩ := exists_collides h hother rfl
    obtain ⟨-, hkey, -, hresolved, -⟩ := hcollides'.spec
    exact of_decide_eq_true hrenamed (by rw [hkey, hresolved, hboth.first])
  · obtain ⟨before, hlisted⟩ := exists_exposure_of_mem_before hexposure howner
    by_contra hne
    have hrenamed : Exposure.isRenamed ⟨exposure.owner, before, owner⟩ = true :=
      decide_eq_true fun heq => hne (heq.symm.trans hidentifier)
    obtain ⟨notice, hnotice, hcollides'⟩ := exists_collision h hlisted hrenamed
    cases hcollides' with
    | @intro other => exact hnot ⟨other.key, _, hidentifier ▸ hnotice⟩

/-- **Errors are as they are worded, and so are notices about keys that are not renamed.** -/
theorem ofValue_tellsCollisions (options : Options) (value : Value) : options.TellsCollisions value where
  errors level first second identifier h := by
    cases isOffence_of_ofValue h with
    | inside hin =>
      cases hin with
      | collision _ _ _ hfirst hsecond => exact ⟨hfirst, hsecond⟩
  notices schema h level first second identifier resolved hmem := bothHave_iff_of_mem h hmem

/-- **The owner of an identifier need not have it from its key**: the second key is renamed to the identifier of the
third. -/
theorem not_bothHave_of_renamed : ∃ schema,
    Schema.ofValue {} (.object [("a", .bool true), ("A", .bool true), ("A2", .bool true)]) = .ok schema ∧
    .nameCollision "<root>" "A" "A2" ⟨"A2"⟩ ⟨"A22"⟩ ∈ schema.notices ∧
    schema.notices.map Notice.message = [
      "keys \"a\" and \"A\" under `<root>` both normalize to `A`; \"A\" is exposed as `A2`",
      "keys \"A\" and \"A2\" under `<root>` both normalize to `A2`; \"A2\" is exposed as `A22`"] ∧
    ¬BothHave ⟨"A2"⟩ "A" "A2" := by
  refine exists_of_isOk (by decide) fun schema h => ⟨?_, ?_, by decide⟩
  · have hnotices : schema.notices = [.nameCollision "<root>" "a" "A" ⟨"A"⟩ ⟨"A2"⟩,
        .nameCollision "<root>" "A" "A2" ⟨"A2"⟩ ⟨"A22"⟩] := by
      apply eq_of_toOption_map_eq h
      decide
    rw [hnotices]
    exact List.mem_cons_of_mem _ List.mem_cons_self
  · apply eq_of_toOption_map_eq h
    decide +kernel

end Schemas

end TypedSettings
