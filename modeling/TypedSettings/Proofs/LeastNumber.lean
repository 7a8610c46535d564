import Mathlib.Order.Bounds.Basic
import TypedSettings.Proofs.Schema.Owners
import TypedSettings.Proofs.Scope

/-!
# The least number that makes a name free

A level of the document and a scope of the generated code give out names in the same way (`GivesLeast`): a free name as
it stands, and a name in use with the least number that makes it free. Of as many numbered names as there are names in
use one is free, so that a search through all numbers has ended by then, and none goes on for ever.

* `Owners.exists_name_suffix`, `Scope.givesLeast_claim`: what one key and one claim get;
* `givesLeast`: both together, with what is in use afterwards.
-/

namespace TypedSettings

/-! ## Giving out a name -/

/-- What is given out for a wanted name, given the names in use: the wanted one if it is free, and otherwise the one with
the least number from 2 upwards that is free. A search through the numbers from 2 upwards has found it once it has seen
as many as there are names in use. -/
structure GivesLeast {α : Type} [DecidableEq α] (inUse : Finset α) (numbered : Nat → α) (wanted given : α) : Prop where
  free : given ∉ inUse
  natural : wanted ∉ inUse → given = wanted
  least : wanted ∈ inUse → ∃ n, IsLeast {n | 2 ≤ n ∧ numbered n ∉ inUse} n ∧ n ≤ inUse.card + 1 ∧ given = numbered n
  search : wanted ∈ inUse →
    ((List.range' 2 inUse.card).map numbered).find? (fun name => decide (name ∉ inUse)) = some given

section GivesLeast

variable {α : Type} [DecidableEq α] {inUse : Finset α} {numbered : Nat → α} {wanted : α}

theorem givesLeast_of_free (h : wanted ∉ inUse) : GivesLeast inUse numbered wanted wanted where
  free := h
  natural _ := rfl
  least hmem := absurd hmem h
  search hmem := absurd hmem h

/-- The number behind a name in use is the first one at which a search stops. -/
theorem givesLeast_of_mem {k : Nat} (hmem : wanted ∈ inUse) (h2 : 2 ≤ k) (hk : k ≤ inUse.card + 1)
    (hfree : numbered k ∉ inUse) (hbelow : ∀ m, 2 ≤ m → m < k → numbered m ∈ inUse) :
    GivesLeast inUse numbered wanted (numbered k) where
  free := hfree
  natural hnot := absurd hmem hnot
  least _ := by
    refine ⟨k, ⟨⟨h2, hfree⟩, ?_⟩, hk, rfl⟩
    rintro m ⟨hm, hnot⟩
    by_contra hlt
    exact hnot (hbelow m hm (Nat.lt_of_not_le hlt))
  search _ := by
    have hfound : (List.range' 2 inUse.card).find? (fun n => decide (numbered n ∉ inUse)) = some k := by
      refine List.find?_range'_eq_some.mpr ⟨decide_eq_true hfree, List.mem_range'_1.mpr ⟨h2, by omega⟩, ?_⟩
      intro m hm hlt
      simpa using hbelow m hm hlt
    rw [List.find?_map, Function.comp_def, hfound, Option.map_some]

end GivesLeast

/-! ## Levels and scopes -/

section Owners

variable {owners : Owners} {identifier : Identifier} {key : String}

theorem Owners.inUse_give (owners : Owners) (identifier : Identifier) (key : String) :
    (owners.give identifier key).inUse = insert identifier owners.inUse := List.toFinset_cons

theorem Owners.not_mem_inUse : identifier ∉ owners.inUse ↔ owners.holds identifier = false := by
  rw [mem_inUse, Bool.not_eq_true]

theorem Owners.givesLeast_resolve {natural : Identifier} (h : owners.holds natural = true) :
    GivesLeast owners.inUse natural.numbered natural (owners.resolve natural) := by
  obtain ⟨k, h2, hk, hresolve, hfree, hbelow⟩ := resolve_spec h
  rw [hresolve]
  exact givesLeast_of_mem (mem_inUse.mpr h) h2 hk (not_mem_inUse.mpr hfree) fun m hm hlt => mem_inUse.mpr (hbelow m hm hlt)

/-- **Under suffixes every key of a level gets the least name that is free**, and becomes its owner. -/
theorem Owners.exists_name_suffix (owners : Owners) (level : Address) (key : String) :
    ∃ identifier notices, owners.name .suffix level key = .ok (identifier, owners.give identifier key, notices) ∧
      GivesLeast owners.inUse (Identifier.ofKey key).numbered (.ofKey key) identifier := by
  cases hfirst : owners.owner? (.ofKey key) with
  | none =>
    have hfree : owners.holds (.ofKey key) = false := by rw [holds, hfirst, Option.isSome_none]
    refine ⟨.ofKey key, [], ?_, givesLeast_of_free (not_mem_inUse.mpr hfree)⟩
    rw [name, hfirst]
  | some first =>
    refine ⟨owners.resolve (.ofKey key),
      [.nameCollision level.levelName first key (.ofKey key) (owners.resolve (.ofKey key))], ?_,
      givesLeast_resolve (holds_of_owner? hfirst)⟩
    rw [name, hfirst]

end Owners

section Scope

theorem Scope.inUse_reserve (scope : Scope) (name : String) :
    (scope.reserve name).inUse = insert name scope.inUse := by
  ext other
  rw [mem_inUse, holds_reserve, Finset.mem_insert, mem_inUse]

/-- **Every claim gets the least name that is free.** -/
theorem Scope.givesLeast_claim (scope : Scope) (base : String) :
    GivesLeast scope.inUse (scope.numbered base) base (scope.claim base).1 := by
  rw [claim]
  cases h : scope.holds base with
  | false =>
    rw [freeName_of_holds_eq_false h]
    exact givesLeast_of_free fun hmem => ne_true_of_eq_false h (mem_inUse.mp hmem)
  | true =>
    obtain ⟨k, h2, hk, hname, hfree, hbelow⟩ := freeName_spec h
    rw [hname]
    refine givesLeast_of_mem (mem_inUse.mpr h) h2 hk ?_ fun m hm hlt => mem_inUse.mpr (hbelow m hm hlt)
    exact fun hmem => ne_true_of_eq_false hfree (mem_inUse.mp hmem)

end Scope

/-- **Names are given out with the least number that makes them free**, to the keys of a level and in the scopes of the
generated code; and nothing changes but that the name is in use, in a level as that of the key. -/
theorem givesLeast :
    (∀ (owners : Owners) (level : Address) (key : String), ∃ identifier owners' notices,
      owners.name .suffix level key = .ok (identifier, owners', notices) ∧
      GivesLeast owners.inUse (fun n => ⟨(Identifier.ofKey key).text ++ toString n⟩) (.ofKey key) identifier ∧
      owners'.inUse = insert identifier owners.inUse ∧
      ∀ other, owners'.owner? other = if other = identifier then some key else owners.owner? other) ∧
    ∀ (scope : Scope) (base : String), ∃ name scope', scope.claim base = (name, scope') ∧
      GivesLeast scope.inUse (fun n => base ++ scope.separator ++ toString n) base name ∧
      scope'.inUse = insert name scope.inUse ∧ scope'.separator = scope.separator := by
  refine ⟨fun owners level key => ?_, fun scope base => ?_⟩
  · obtain ⟨identifier, notices, hname, hgives⟩ := owners.exists_name_suffix level key
    exact ⟨identifier, _, notices, hname, hgives, owners.inUse_give identifier key,
      fun other => owners.owner?_give identifier other key⟩
  · exact ⟨_, _, rfl, scope.givesLeast_claim base, scope.inUse_reserve _, rfl⟩

/-- Suffixed names can be those of other keys: the number of the third key is the one behind. -/
example : ((Owners.mk [(⟨"A2"⟩, "A2"), (⟨"A"⟩, "A")]).name .suffix .root "a").toOption.map Prod.fst = some ⟨"A3"⟩ := by
  decide

end TypedSettings
