import Mathlib.Data.Finset.Card
import TypedSettings.Scope

/-!
# The least free number

`firstFree` searches the names `name n, name (n + 1), …` for one that is not taken. When the names are distinct and the
search may try as many of them as there are taken names in the family, it ends at the least free one, at most as many
places behind `n` as names are taken (`firstFree_spec`). Where the names are the numbered ones of a name in use, this one
is in nobody's way, and one place less is enough (`firstFree_of_mem`). Names that end in different numbers are distinct
(`toDigits_ten_injective`).
-/

namespace TypedSettings

/-- Numbers with the same digits are the same. -/
theorem toDigits_ten_injective : Function.Injective (Nat.toDigits 10) := fun m n h => by
  simpa using congrArg (fun digits => Nat.ofDigitChars 10 digits 0) h

variable {α : Type} {taken : α → Bool} {name : Nat → α}

/-- **The search finds the least free name.** `used` holds the taken names from `n` on; each name that is passed over
is one of them, and no other name equals it. -/
theorem firstFree_spec (inj : Function.Injective name) : ∀ {tries n : Nat} {used : List α},
    (∀ m, n ≤ m → taken (name m) = true → name m ∈ used) → used.length ≤ tries →
    ∃ k, n ≤ k ∧ k ≤ n + used.length ∧ firstFree taken name tries n = name k ∧ taken (name k) = false ∧
      ∀ m, n ≤ m → m < k → taken (name m) = true
  | 0, n, used, hused, hlen => by
    have hnil : used = [] := List.eq_nil_of_length_eq_zero (Nat.le_zero.mp hlen)
    have hfree : taken (name n) = false := by
      rw [← Bool.not_eq_true]
      intro ht
      have hm := hused n (Nat.le_refl n) ht
      rw [hnil] at hm
      cases hm
    exact ⟨n, Nat.le_refl n, Nat.le_add_right n _, rfl, hfree, fun m h₁ h₂ => by omega⟩
  | tries + 1, n, used, hused, hlen => by
    classical
    by_cases ht : taken (name n) = true
    · have hm := hused n (Nat.le_refl n) ht
      have hused' : ∀ m, n + 1 ≤ m → taken (name m) = true → name m ∈ used.erase (name n) := by
        intro m hnm htm
        have hne : name m ≠ name n := fun e => by have := inj e; omega
        exact (List.mem_erase_of_ne hne).mpr (hused m (by omega) htm)
      have herase := List.length_erase_of_mem hm
      have hpos := List.length_pos_of_mem hm
      have hlen' : (used.erase (name n)).length ≤ tries := by omega
      obtain ⟨k, hnk, hk, hfirst, hfree, hbelow⟩ := firstFree_spec inj hused' hlen'
      refine ⟨k, by omega, by omega, ?_, hfree, ?_⟩
      · rw [firstFree, if_pos ht, hfirst]
      · intro m h₁ h₂
        rcases Nat.lt_or_eq_of_le h₁ with h | h
        · exact hbelow m h h₂
        · rw [← h]; exact ht
    · refine ⟨n, Nat.le_refl n, Nat.le_add_right n _, ?_, by simpa using ht, fun m h₁ h₂ => by omega⟩
      rw [firstFree, if_neg ht]

/-- **A name in use gets the least number that makes it free**, at most one more than there are names in use: its
competitors are the other ones, since it has no number itself. -/
theorem firstFree_of_mem [DecidableEq α] (inj : Function.Injective name) {wanted : α} (hne : ∀ n, name n ≠ wanted)
    {names : Finset α} (hnames : ∀ a, taken a = true → a ∈ names) (hwanted : wanted ∈ names) {tries : Nat}
    (htries : names.card ≤ tries) :
    ∃ k, 2 ≤ k ∧ k ≤ names.card + 1 ∧ firstFree taken name tries 2 = name k ∧ taken (name k) = false ∧
      ∀ m, 2 ≤ m → m < k → taken (name m) = true := by
  have hcard : (names.erase wanted).toList.length + 1 = names.card := by
    rw [Finset.length_toList, Finset.card_erase_add_one hwanted]
  have hused : ∀ m, 2 ≤ m → taken (name m) = true → name m ∈ (names.erase wanted).toList := by
    intro m _ hm
    exact Finset.mem_toList.mpr (Finset.mem_erase.mpr ⟨hne m, hnames _ hm⟩)
  obtain ⟨k, h2, hk, hfirst, hfree, hbelow⟩ := firstFree_spec inj hused (show _ ≤ tries by omega)
  exact ⟨k, h2, by omega, hfirst, hfree, hbelow⟩

end TypedSettings
