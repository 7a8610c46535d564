import TypedSettings.Proofs.Address
import TypedSettings.Proofs.Schema.Account

/-!
# Accessors with the same address text

No two accessors of a schema have the same address, since no two members of the document do. The texts of two addresses
may still be the same, as those of the key `a:b` and of the key `b` under `a` are; only a colon in a key can bring this
about (`differ_of_mem_exposures`), and an empty key never does.
-/

namespace TypedSettings

/-- Two accessors differ in their addresses, and have the same address text only by a colon in one of their keys. -/
structure Accessor.Differ (accessor other : Accessor) : Prop where
  address : accessor.address ≠ other.address
  text : accessor.address.text = other.address.text →
    ∃ key ∈ accessor.address.keys ++ other.address.keys, ':' ∈ key.toList

theorem Account.IsRight.exposes {onNull : OnNull} {account : Account} {exposure : Exposure}
    (h : account.IsRight onNull) (hexposure : account.exposure? = some exposure) : exposure.Exposes account.member := by
  cases h with
  | skipped => cases hexposure
  | null _ _ hexposes _ | value _ hexposes _ =>
    cases hexposure
    exact hexposes

/-- Accounts whose members have different addresses list accessors with different addresses. -/
theorem AccountsFor.pairwise_ne {onNull : OnNull} {accounts : List Account} {members : List Member}
    {exposures : List Exposure} {notices : List Notice} (h : AccountsFor onNull accounts members exposures notices)
    (hnd : (members.map Member.address).Nodup) :
    exposures.Pairwise fun exposure other => exposure.accessor.address ≠ other.accessor.address := by
  rw [← h.members, List.map_map] at hnd
  rw [← h.exposures, List.pairwise_filterMap]
  refine (List.pairwise_map.mp hnd).imp_of_mem ?_
  intro account account' hmem hmem' hne exposure hexposure other hother heq
  have haddress := ((h.right account hmem).exposes hexposure).address
  have haddress' := ((h.right account' hmem').exposes hother).address
  exact hne (haddress.symm.trans (heq.trans haddress'))

theorem Exposure.Exposes.address_ne_root {exposure : Exposure} {member : Member} (h : exposure.Exposes member) :
    exposure.accessor.address ≠ .root := by
  rw [h.address]
  exact Address.child_ne_root member.level member.key

/-- **Two accessors have different addresses, and the same address text only by a colon in a key.** -/
theorem differ_of_mem_exposures {options : Options} {value : Value} {schema : Schema}
    (hkeys : value.hasDistinctKeys = true) (h : Schema.ofValue options value = .ok schema) :
    schema.root.exposures.Pairwise fun exposure other => exposure.accessor.Differ other.accessor := by
  obtain ⟨members, rfl⟩ := exists_object h
  obtain ⟨accounts, haccounts⟩ := exists_accounts h
  refine (haccounts.pairwise_ne (Value.nodup_reached hkeys)).imp_of_mem ?_
  intro exposure other hmem hmem' hne
  obtain ⟨member, -, hexposes⟩ := exists_mem_of_forall₂ haccounts.exposed exposure hmem
  obtain ⟨member', -, hexposes'⟩ := exists_mem_of_forall₂ haccounts.exposed other hmem'
  exact ⟨hne, Address.exists_colon hexposes.address_ne_root hexposes'.address_ne_root hne⟩

/-- The hypotheses are met by a document with empty keys, all of whose texts differ, and with a key that has the text of
another key's address. -/
theorem differ_of_mem_exposures_colon : ∃ schema,
    Schema.ofValue {} (.object [("", .object [("", .bool true)]), ("a:b", .bool true),
      ("a", .object [("b", .bool true), ("", .bool true)])]) = .ok schema ∧
    schema.root.exposures.map (·.accessor.address.text) = [":", "", "a:b", "a:b", "a:", "a"] ∧
    schema.root.exposures.Pairwise fun exposure other => exposure.accessor.Differ other.accessor := by
  refine exists_of_isOk (by decide) fun schema h => ⟨?_, differ_of_mem_exposures (by decide) h⟩
  apply eq_of_toOption_map_eq h
  decide +kernel

end TypedSettings
