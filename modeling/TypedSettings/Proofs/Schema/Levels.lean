import TypedSettings.Proofs.Address
import TypedSettings.Proofs.Schema.Accept
import TypedSettings.Proofs.Text.Lines

/-!
# Identifiers level by level

A key gets its own identifier, or that one with a number behind it if it is given out already. So an identifier without
digits is in a level just when a key of the level has it for its own (`Pass.exists_identifier_iff`), whatever the other
keys get and in whichever order they come.

`Pass.forall₂_comesFrom` pairs every section of a schema with the object whose members its accessors came from, so that what
holds of a pass over a level holds of all sections of a document.
-/

namespace TypedSettings

open Text

/-! ## Identifiers without digits -/

/-- Something is given out here, or behind what is given out here, just when it is free and wanted here or behind. -/
theorem given_or_behind_iff {given own free behind : Prop} (h : given ↔ own ∧ free) :
    given ∨ (¬given ∧ free) ∧ behind ↔ free ∧ (own ∨ behind) := by
  rw [h]
  tauto

section Named

variable {onCollision : OnCollision} {owners : Owners} {level : Address} {key : String} {identifier wanted : Identifier}
  {collision : List Notice}

theorem Identifier.numbered_ne_of_lacks (hwanted : Lacks Char.isDigit wanted.text) (natural : Identifier) (k : Nat) :
    natural.numbered k ≠ wanted := by
  rintro rfl
  exact not_lacks_append_right _ (not_lacks_isDigit_toString k) hwanted

/-- A key gets an identifier without digits just when this is its own one and not given out yet. -/
theorem Named.eq_iff (hwanted : Lacks Char.isDigit wanted.text)
    (h : Named onCollision owners level key identifier collision) :
    identifier = wanted ↔ Identifier.ofKey key = wanted ∧ owners.holds wanted = false := by
  cases h with
  | natural hfree =>
    refine ⟨fun heq => ⟨heq, ?_⟩, And.left⟩
    rw [← heq, Owners.holds, hfree, Option.isSome_none]
  | renamed _ hfirst =>
    have hheld := holds_of_owner? hfirst
    obtain ⟨k, -, -, hresolve, -, -⟩ := Owners.resolve_spec hheld
    refine iff_of_false (hresolve ▸ Identifier.numbered_ne_of_lacks hwanted _ k) ?_
    rintro ⟨rfl, hfree⟩
    exact absurd hheld (ne_true_of_eq_false hfree)

theorem Owners.holds_give_eq_false_iff : (owners.give identifier key).holds wanted = false ↔
    identifier ≠ wanted ∧ owners.holds wanted = false := by
  rw [holds, owner?_give]
  split
  · rename_i heq
    exact iff_of_false (by simp) fun h => h.1 heq.symm
  · rename_i hne
    exact ⟨fun h => ⟨fun heq => hne heq.symm, h⟩, And.right⟩

end Named

section Passes

variable {options : Options} {level : Address} {depth : Nat} {owners : Owners} {members : List (String × Value)}
  {accessors : List Accessor} {notices : List Notice} {wanted : Identifier}

/-- What a key gets and what the keys behind it get, put together. -/
theorem Named.exists_cons_iff {onCollision : OnCollision} {key : String} {identifier : Identifier}
    {collision : List Notice} (hwanted : Lacks Char.isDigit wanted.text)
    (h : Named onCollision owners level key identifier collision) {keys : List String} {accessor : Accessor}
    (haccessor : accessor.identifier = identifier)
    (ih : (∃ other ∈ accessors, other.identifier = wanted) ↔
      (owners.give identifier key).holds wanted = false ∧ ∃ other ∈ keys, Identifier.ofKey other = wanted) :
    (∃ other ∈ accessor :: accessors, other.identifier = wanted) ↔
      owners.holds wanted = false ∧ ∃ other ∈ key :: keys, Identifier.ofKey other = wanted := by
  rw [List.exists_mem_cons_iff, List.exists_mem_cons_iff, ih, haccessor, Owners.holds_give_eq_false_iff]
  exact given_or_behind_iff (h.eq_iff hwanted)

/-- **An identifier without digits is given out at a level just when it is free and a key has it for its own.** -/
theorem Pass.exists_identifier_iff (hwanted : Lacks Char.isDigit wanted.text)
    (h : Pass options level depth owners members accessors notices) :
    (∃ accessor ∈ accessors, accessor.identifier = wanted) ↔ owners.holds wanted = false ∧
      ∃ key ∈ keptKeys options.onNull members, Identifier.ofKey key = wanted := by
  induction h with
  | done => simp [keptKeys]
  | skipped hskip _ ih =>
    rw [ih, keptKeys, keptKeys, List.filter_cons_of_neg (by simp [hskip, OnNull.exposes])]
  | leaf hleaf hnamed _ ih =>
    rw [keptKeys_cons_of_exposes hleaf.exposes]
    exact hnamed.exists_cons_iff hwanted rfl ih
  | object _ hnamed _ _ ih =>
    rw [keptKeys_cons_of_exposes (exposes_object _ _)]
    exact hnamed.exists_cons_iff hwanted rfl ih

end Passes

/-! ## Sections and their objects -/

/-- A section comes from a pass over the members of an object. -/
def Section.ComesFrom (options : Options) (s : Section) (object : Address × List (String × Value)) : Prop :=
  ∃ depth accessors notices, s = Schema.sectionOf object.1 depth object.2 accessors ∧
    Pass options object.1 depth .empty object.2 accessors notices

section Sections

variable {options : Options} {level : Address} {depth : Nat} {owners : Owners} {members : List (String × Value)}
  {accessors : List Accessor} {notices : List Notice}

/-- **The sections inside the accessors of a level come from the objects below it**, none of which is the root. -/
theorem Pass.forall₂_comesFrom (h : Pass options level depth owners members accessors notices) :
    List.Forall₂ (fun s object => s.ComesFrom options object ∧ object.1 ≠ .root) (Section.walkAccessors accessors)
      (Value.objectsBelow level members) := by
  induction h with
  | done => exact .nil
  | skipped _ _ ih => exact ih
  | leaf hleaf _ _ ih =>
    rw [Section.walkAccessors, hleaf.walkAccess_eq_nil, Value.objectsBelow, Value.objects_eq_nil _ hleaf.ne_object]
    exact ih
  | object hinner _ _ ihInner ih =>
    exact List.rel_append (.cons ⟨⟨_, _, _, rfl, hinner⟩, Address.child_ne_root _ _⟩ ihInner) ih

end Sections

end TypedSettings
