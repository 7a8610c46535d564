import TypedSettings.Proofs.FreeName
import TypedSettings.Proofs.Identifier.WellFormed
import TypedSettings.Proofs.Schema.Pass

/-!
# Naming the keys of a level

* `Owners.give` adds one owner and changes no other (`owner?_give`);
* `Owners.resolve` gives a taken identifier the least number that makes it free, at most one more than there are taken
  ones (`inUse`, `resolve_spec`);
* so whatever a key gets is free and well-formed (`Named.free`, `Named.isWellFormed`).
-/

namespace TypedSettings

namespace Owners

variable {owners : Owners} {identifier natural : Identifier} {key : String}

theorem owner?_give (owners : Owners) (identifier other : Identifier) (key : String) :
    (owners.give identifier key).owner? other = if other = identifier then some key else owners.owner? other := by
  simp only [owner?, give, List.lookup_cons]
  by_cases h : other = identifier
  · rw [h, beq_self_eq_true, if_pos rfl]
  · rw [beq_false_of_ne h, if_neg h]

theorem holds_give_self (owners : Owners) (identifier : Identifier) (key : String) :
    (owners.give identifier key).holds identifier = true := by
  rw [holds, owner?_give, if_pos rfl, Option.isSome_some]

/-- What is free behind one more owner was free before. -/
theorem holds_of_give {other : Identifier} (h : (owners.give identifier key).holds other = false) :
    owners.holds other = false := by
  rw [holds, owner?_give] at h
  split at h
  · cases h
  · exact h

/-- The identifiers given out. -/
def inUse (owners : Owners) : Finset Identifier := (owners.entries.map Prod.fst).toFinset

theorem mem_inUse : identifier ∈ owners.inUse ↔ owners.holds identifier = true := by
  rw [inUse, List.mem_toFinset, List.mem_map, holds, owner?, List.lookup_isSome_iff]
  exact exists_congr fun entry => and_congr_right fun _ => eq_comm.trans beq_iff_eq.symm

theorem card_inUse_le (owners : Owners) : owners.inUse.card ≤ owners.entries.length :=
  (List.toFinset_card_le _).trans (List.length_map _).le

/-- **A taken identifier gets the least number that makes it free.** -/
theorem resolve_spec (h : owners.holds natural = true) :
    ∃ k, 2 ≤ k ∧ k ≤ owners.inUse.card + 1 ∧ owners.resolve natural = natural.numbered k ∧
      owners.holds (natural.numbered k) = false ∧
      ∀ m, 2 ≤ m → m < k → owners.holds (natural.numbered m) = true :=
  firstFree_of_mem (Identifier.numbered_injective natural) (Identifier.numbered_ne natural) (fun _ => mem_inUse.mpr)
    (mem_inUse.mpr h) owners.card_inUse_le

end Owners

/-! ## What a key gets -/

section Named

variable {onCollision : OnCollision} {owners : Owners} {level : Address} {key : String} {identifier : Identifier}
  {collision : List Notice}

theorem holds_of_owner? {first : String} (h : owners.owner? identifier = some first) :
    owners.holds identifier = true := by
  rw [Owners.holds, h, Option.isSome_some]

/-- **What a key gets was free.** -/
theorem Named.free (h : Named onCollision owners level key identifier collision) :
    owners.holds identifier = false := by
  cases h with
  | natural hfree => rw [Owners.holds, hfree, Option.isSome_none]
  | renamed _ hfirst =>
    obtain ⟨k, -, -, hresolve, hfree, -⟩ := Owners.resolve_spec (holds_of_owner? hfirst)
    rw [hresolve]
    exact hfree

/-- **What a key gets is well-formed.** -/
theorem Named.isWellFormed (h : Named onCollision owners level key identifier collision) :
    Identifier.isWellFormed identifier.text = true := by
  cases h with
  | natural _ => exact Identifier.isWellFormed_ofKey key
  | renamed _ hfirst =>
    obtain ⟨k, -, -, hresolve, -, -⟩ := Owners.resolve_spec (holds_of_owner? hfirst)
    rw [hresolve]
    exact Identifier.isWellFormed_numbered (Identifier.isWellFormed_ofKey key) k

end Named

end TypedSettings
