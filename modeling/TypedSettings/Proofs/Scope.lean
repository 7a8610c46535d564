import Mathlib.Data.List.Nodup
import Mathlib.Tactic.Tauto
import TypedSettings.Proofs.FreeName

/-!
# Names given out in a scope

* `Scope.freeName_spec`: a name in use gets the least number from 2 upwards that makes it free, at most one more than
  there are names in use (`Scope.inUse`);
* `Scope.Grows`: a scope grows by names that were not in use, each given out once. One claim is such a step
  (`grows_claim`), and steps make runs (`Grows.trans`).
-/

namespace TypedSettings.Scope

variable {scope scope' scope'' : Scope} {names more : List String}

theorem holds_iff {name : String} : scope.holds name = true ↔ name ∈ scope.used := by
  rw [holds, List.contains_iff_mem]

/-- The names in use. -/
def inUse (scope : Scope) : Finset String := scope.used.toFinset

theorem mem_inUse {name : String} : name ∈ scope.inUse ↔ scope.holds name = true := by
  rw [inUse, List.mem_toFinset, holds_iff]

theorem card_inUse_le (scope : Scope) : scope.inUse.card ≤ scope.used.length := List.toFinset_card_le _

theorem holds_reserve {name other : String} :
    (scope.reserve name).holds other = true ↔ other = name ∨ scope.holds other = true := by
  rw [holds_iff, holds_iff, reserve, List.mem_insert_iff]

/-! ## Numbered names -/

theorem toList_numbered (scope : Scope) (base : String) (n : Nat) :
    (scope.numbered base n).toList = base.toList ++ scope.separator.toList ++ Nat.toDigits 10 n := by
  simp [numbered, Nat.toString_eq_repr, Nat.toList_repr]

theorem numbered_injective (scope : Scope) (base : String) : Function.Injective (scope.numbered base) := by
  intro m n h
  have hdigits := congrArg String.toList h
  rw [toList_numbered, toList_numbered, List.append_cancel_left_eq] at hdigits
  exact toDigits_ten_injective hdigits

theorem numbered_ne (scope : Scope) (base : String) (n : Nat) : scope.numbered base n ≠ base := by
  intro h
  have htexts := congrArg String.toList h
  rw [toList_numbered, List.append_assoc] at htexts
  exact Nat.toDigits_ne_nil (List.append_eq_nil_iff.mp (List.append_right_eq_self.mp htexts)).2

/-! ## The name for a wanted one -/

/-- **A name in use gets the least number that makes it free.** -/
theorem freeName_spec {base : String} (h : scope.holds base = true) :
    ∃ k, 2 ≤ k ∧ k ≤ scope.inUse.card + 1 ∧ scope.freeName base = scope.numbered base k ∧
      scope.holds (scope.numbered base k) = false ∧
      ∀ m, 2 ≤ m → m < k → scope.holds (scope.numbered base m) = true := by
  rw [freeName, if_pos h]
  exact firstFree_of_mem (numbered_injective scope base) (numbered_ne scope base) (fun _ => mem_inUse.mpr)
    (mem_inUse.mpr h) scope.card_inUse_le

/-- A name that is not in use is given out as it stands. -/
theorem freeName_of_holds_eq_false {base : String} (h : scope.holds base = false) : scope.freeName base = base := by
  rw [freeName, if_neg (ne_true_of_eq_false h)]

/-- What is given out is the wanted name, or that name with a number. -/
theorem freeName_eq (scope : Scope) (base : String) :
    scope.freeName base = base ∨ ∃ k, scope.freeName base = scope.numbered base k := by
  cases h : scope.holds base with
  | false => exact Or.inl (freeName_of_holds_eq_false h)
  | true =>
    obtain ⟨k, -, -, hname, -, -⟩ := freeName_spec h
    exact Or.inr ⟨k, hname⟩

/-- **What is given out was not in use.** -/
theorem holds_freeName (scope : Scope) (base : String) : scope.holds (scope.freeName base) = false := by
  cases h : scope.holds base with
  | false =>
    rw [freeName_of_holds_eq_false h]
    exact h
  | true =>
    obtain ⟨k, -, -, hname, hfree, -⟩ := freeName_spec h
    rw [hname]
    exact hfree

/-! ## Growth -/

/-- A scope grows by names that were not in use, each given out once. -/
structure Grows (scope : Scope) (names : List String) (scope' : Scope) : Prop where
  nodup : names.Nodup
  fresh : ∀ name ∈ names, scope.holds name = false
  holds : ∀ name, scope'.holds name = true ↔ name ∈ names ∨ scope.holds name = true
  separator : scope'.separator = scope.separator

theorem Grows.refl (scope : Scope) : scope.Grows [] scope where
  nodup := List.nodup_nil
  fresh _ hmem := by cases hmem
  holds name := by simp
  separator := rfl

theorem grows_claim (scope : Scope) (base : String) : scope.Grows [(scope.claim base).1] (scope.claim base).2 where
  nodup := List.nodup_singleton _
  fresh name hmem := by
    rw [List.mem_singleton.mp hmem]
    exact holds_freeName scope base
  holds name := by
    rw [List.mem_singleton]
    exact holds_reserve
  separator := rfl

/-- What is not in use behind a step was not in use before. -/
theorem Grows.holds_eq_false (h : scope.Grows names scope') {name : String} (hfree : scope'.holds name = false) :
    scope.holds name = false := by
  rw [← Bool.not_eq_true] at hfree ⊢
  exact fun hheld => hfree ((h.holds name).mpr (Or.inr hheld))

/-- Steps make runs: what the second step gives out was not in use behind the first. -/
theorem Grows.trans (h : scope.Grows names scope') (h' : scope'.Grows more scope'') :
    scope.Grows (names ++ more) scope'' where
  nodup := by
    refine List.nodup_append.mpr ⟨h.nodup, h'.nodup, fun name hname other hother => ?_⟩
    rintro rfl
    have hheld := (h.holds name).mpr (Or.inl hname)
    rw [h'.fresh name hother] at hheld
    cases hheld
  fresh name hmem := by
    rcases List.mem_append.mp hmem with hmem | hmem
    · exact h.fresh name hmem
    · exact h.holds_eq_false (h'.fresh name hmem)
  holds name := by
    rw [h'.holds, h.holds, List.mem_append]
    tauto
  separator := h'.separator.trans h.separator

/-- The order in which names are given out does not matter. -/
theorem Grows.perm (h : scope.Grows names scope') (hperm : names.Perm more) : scope.Grows more scope' where
  nodup := hperm.nodup_iff.mp h.nodup
  fresh name hmem := h.fresh name (hperm.mem_iff.mpr hmem)
  holds name := by rw [h.holds, hperm.mem_iff]
  separator := h.separator

end TypedSettings.Scope
