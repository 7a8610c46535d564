import Mathlib.Logic.Relation
import TypedSettings.Proofs.Value.Order

/-!
# Agreement is reordering

Two values agree just when one becomes the other by changes that each list the members of one object in another order,
at any depth, or write a number as another double (`Reorders`). The comparison looks the members of the left object up
in the right one, and not the other way round; that it is an equivalence relation all the same rests on the keys of an
object being distinct, and on the two objects having as many members.

* `Binary64.sameNumber_iff`: two doubles are the same number if they stand for the same (`Binary64.number`): for the
  same multiple of the smallest one, as the two zeros do, for the same infinity, or both for no number;
* `agrees_object_iff`: objects agree where their members match;
* `agrees_iff_reordered`: agreement, described in both ways.
-/

namespace TypedSettings

/-! ## Doubles as numbers -/

namespace Binary64

variable {x y : Binary64}

/-- What a double stands for. -/
inductive Number where
  | nan
  | infinite (negative : Bool)
  | finite (units : Int)

/-- A finite double as a multiple of the smallest positive one. -/
def signedUnits (x : Binary64) : Int := if x.negative then -(x.units : Int) else x.units

/-- The number that a double is, if it is one. -/
def number (x : Binary64) : Number :=
  if x.isFinite then .finite x.signedUnits else if x.isNaN then .nan else .infinite x.negative

/-- A larger magnitude is a larger number. -/
theorem units_lt_units (h : x.magnitude.val < y.magnitude.val) : x.units < y.units := by
  have hbit : 0 < leadingBit := Nat.two_pow_pos 52
  simp only [units, significand, place, Nat.pow_eq]
  generalize leadingBit = bit at hbit
  generalize x.magnitude.val = m at h
  generalize y.magnitude.val = n at h
  by_cases hm : m < bit
  · rw [if_pos hm, Nat.div_eq_of_lt hm, Nat.zero_sub, Nat.pow_zero, Nat.mul_one]
    by_cases hn : n < bit
    · rwa [if_pos hn, Nat.div_eq_of_lt hn, Nat.zero_sub, Nat.pow_zero, Nat.mul_one]
    · rw [if_neg hn]
      calc m < bit := hm
        _ ≤ bit + n % bit := Nat.le_add_right _ _
        _ ≤ (bit + n % bit) * 2 ^ (n / bit - 1) := Nat.le_mul_of_pos_right _ (Nat.two_pow_pos _)
  · have hn : ¬n < bit := by omega
    rw [if_neg hm, if_neg hn]
    have hplace : 1 ≤ m / bit := (Nat.one_le_div_iff hbit).mpr (by omega)
    rcases Nat.eq_or_lt_of_le (Nat.div_le_div_right (c := bit) (Nat.le_of_lt h)) with heq | hlt
    · -- with one exponent, the significands decide
      have hm := Nat.div_add_mod m bit
      have hn := Nat.div_add_mod n bit
      rw [← heq] at hn ⊢
      exact Nat.mul_lt_mul_of_pos_right (by omega) (Nat.two_pow_pos _)
    · -- a significand is less than twice the leading bit
      have hmod : m % bit < bit := Nat.mod_lt m hbit
      have hexp : m / bit - 1 + 1 ≤ n / bit - 1 := by omega
      calc (bit + m % bit) * 2 ^ (m / bit - 1)
          < (bit * 2) * 2 ^ (m / bit - 1) := Nat.mul_lt_mul_of_pos_right (by omega) (Nat.two_pow_pos _)
        _ = bit * 2 ^ (m / bit - 1 + 1) := by rw [Nat.mul_assoc, Nat.pow_succ']
        _ ≤ bit * 2 ^ (n / bit - 1) := Nat.mul_le_mul_left _ (Nat.pow_le_pow_right (by decide) hexp)
        _ ≤ (bit + n % bit) * 2 ^ (n / bit - 1) := Nat.mul_le_mul_right _ (Nat.le_add_right _ _)

theorem magnitude_eq_of_units_eq (h : x.units = y.units) : x.magnitude = y.magnitude := by
  rcases Nat.lt_trichotomy x.magnitude.val y.magnitude.val with hlt | heq | hlt
  · exact absurd h (Nat.ne_of_lt (units_lt_units hlt))
  · exact Fin.ext heq
  · exact absurd h.symm (Nat.ne_of_lt (units_lt_units hlt))

theorem units_eq_zero_iff : x.units = 0 ↔ x.isZero = true := by
  have hzero : zero.units = 0 := Nat.zero_mul _
  rw [isZero, beq_iff_eq, ← hzero]
  constructor
  · intro h
    exact congrArg Fin.val (magnitude_eq_of_units_eq h)
  · intro h
    have hmagnitude : x.magnitude = zero.magnitude := Fin.ext h
    simp only [units, significand, place, hmagnitude]

/-- Two finite doubles count the same if they are the same double or both are zeros. -/
theorem signedUnits_eq_iff : x.signedUnits = y.signedUnits ↔ x = y ∨ x.isZero = true ∧ y.isZero = true := by
  obtain ⟨signx, magx⟩ := x
  obtain ⟨signy, magy⟩ := y
  constructor
  · intro h
    by_cases hsign : signx = signy
    · subst hsign
      have hunits : (⟨signx, magx⟩ : Binary64).units = (⟨signx, magy⟩ : Binary64).units := by
        cases signx with
        | false => exact Int.ofNat.inj h
        | true => exact Int.ofNat.inj (Int.neg_inj.mp h)
      exact Or.inl (congrArg _ (magnitude_eq_of_units_eq hunits))
    · -- of two numbers with different signs that are equal both are nothing
      right
      rw [← units_eq_zero_iff, ← units_eq_zero_iff]
      cases signx with
      | false =>
        cases signy with
        | false => exact absurd rfl hsign
        | true =>
          have hunits : ((⟨false, magx⟩ : Binary64).units : Int) = -((⟨true, magy⟩ : Binary64).units : Int) := h
          omega
      | true =>
        cases signy with
        | false =>
          have hunits : -((⟨true, magx⟩ : Binary64).units : Int) = ((⟨false, magy⟩ : Binary64).units : Int) := h
          omega
        | true => exact absurd rfl hsign
  · rintro (h | ⟨hx, hy⟩)
    · rw [h]
    · rw [← units_eq_zero_iff] at hx hy
      rw [signedUnits, signedUnits, hx, hy]
      simp

theorem isFinite_of_isZero (h : x.isZero = true) : x.isFinite = true := by
  have hzero : x.magnitude.val = 0 := beq_iff_eq.mp h
  exact decide_eq_true (hzero ▸ (by decide : 0 < limit))

theorem isNaN_eq_false_of_isFinite (h : x.isFinite = true) : x.isNaN = false :=
  decide_eq_false (Nat.lt_asymm (of_decide_eq_true h))

/-- A double is finite, not a number, or one of the two infinities. -/
theorem number_cases (x : Binary64) : (x.isFinite = true ∧ x.number = .finite x.signedUnits) ∨
    (x.isNaN = true ∧ x.number = .nan) ∨ (x.magnitude.val = limit ∧ x.number = .infinite x.negative) := by
  rcases Nat.lt_trichotomy x.magnitude.val limit with hlt | heq | hgt
  · have hfinite : x.isFinite = true := decide_eq_true hlt
    exact Or.inl ⟨hfinite, if_pos hfinite⟩
  · have hfinite : ¬x.isFinite = true := fun h => Nat.ne_of_lt (of_decide_eq_true h) heq
    have hnan : ¬x.isNaN = true := fun h => Nat.ne_of_gt (of_decide_eq_true h) heq
    exact Or.inr (Or.inr ⟨heq, (if_neg hfinite).trans (if_neg hnan)⟩)
  · have hnan : x.isNaN = true := decide_eq_true hgt
    have hfinite : ¬x.isFinite = true := fun h => Nat.lt_asymm hgt (of_decide_eq_true h)
    exact Or.inr (Or.inl ⟨hnan, (if_neg hfinite).trans (if_pos hnan)⟩)

theorem number_eq_nan (h : x.isNaN = true) : x.number = .nan := by
  have hfinite : ¬x.isFinite = true := fun hfinite => by
    rw [isNaN_eq_false_of_isFinite hfinite] at h
    cases h
  rw [number, if_neg hfinite, if_pos h]

/-- **Two doubles stand for the same** if they are the same double, both are zeros, or neither is a number. -/
theorem number_eq_iff : x.number = y.number ↔
    x = y ∨ (x.isZero = true ∧ y.isZero = true) ∨ x.isNaN = true ∧ y.isNaN = true := by
  constructor
  · intro h
    rcases x.number_cases with ⟨-, hx⟩ | ⟨hnan, hx⟩ | ⟨hmagnitude, hx⟩ <;>
      rcases y.number_cases with ⟨-, hy⟩ | ⟨hnan', hy⟩ | ⟨hmagnitude', hy⟩ <;>
      simp only [hx, hy, reduceCtorEq, Number.finite.injEq, Number.infinite.injEq] at h
    · exact (signedUnits_eq_iff.mp h).imp_right Or.inl
    · exact Or.inr (Or.inr ⟨hnan, hnan'⟩)
    · exact Or.inl (congrArg₂ mk h (Fin.ext (hmagnitude.trans hmagnitude'.symm)))
  · rintro (h | ⟨hx, hy⟩ | ⟨hx, hy⟩)
    · rw [h]
    · rw [number, number, if_pos (isFinite_of_isZero hx), if_pos (isFinite_of_isZero hy),
        signedUnits_eq_iff.mpr (Or.inr ⟨hx, hy⟩)]
    · rw [number_eq_nan hx, number_eq_nan hy]

/-- **Two doubles are the same number if they stand for the same.** -/
theorem sameNumber_iff : x.sameNumber y = true ↔ x.number = y.number := by
  rw [sameNumber, equals, number_eq_iff]
  by_cases hx : x.isNaN = true
  · rw [if_pos hx]
    constructor
    · exact fun hy => Or.inr (Or.inr ⟨hx, hy⟩)
    · rintro (rfl | ⟨hzero, -⟩ | ⟨-, hy⟩)
      · exact hx
      · rw [isNaN_eq_false_of_isFinite (isFinite_of_isZero hzero)] at hx
        cases hx
      · exact hy
  · have hx' : x.isNaN = false := Bool.eq_false_iff.mpr hx
    rw [if_neg hx, hx']
    simp only [Bool.not_false, Bool.true_and, Bool.and_eq_true, Bool.or_eq_true, beq_iff_eq, Bool.not_eq_true',
      Bool.false_eq_true, false_and, or_false]
    refine and_iff_right_of_imp ?_
    rintro (rfl | ⟨-, hzero⟩)
    · exact hx'
    · exact isNaN_eq_false_of_isFinite (isFinite_of_isZero hzero)

end Binary64

/-! ## Objects whose members match -/

namespace Value

variable {v w : Value} {ms ns : List (String × Value)} {xs ys : List Value}

theorem hasDistinctKeys_array : hasDistinctKeys (.array xs) = true ↔ ∀ x ∈ xs, x.hasDistinctKeys = true := by
  rw [hasDistinctKeys]
  induction xs with
  | nil => simp [elementsHaveDistinctKeys]
  | cons x xs ih => rw [elementsHaveDistinctKeys, Bool.and_eq_true, ih, List.forall_mem_cons]

theorem agrees_array_iff : (array xs).agrees (.array ys) = true ↔
    List.Forall₂ (fun x y => x.agrees y = true) xs ys := by
  rw [agrees]
  induction xs generalizing ys with
  | nil => cases ys <;> simp [agreeElements]
  | cons x xs ih =>
    cases ys with
    | nil => simp [agreeElements]
    | cons y ys => rw [agreeElements, Bool.and_eq_true, ih, List.forall₂_cons]

/-- Only an array agrees with an array. -/
theorem exists_array_of_agrees (h : (array xs).agrees w = true) :
    ∃ ys, w = .array ys ∧ List.Forall₂ (fun x y => x.agrees y = true) xs ys := by
  cases w with
  | array ys => exact ⟨ys, rfl, agrees_array_iff.mp h⟩
  | _ => cases h

theorem agreeMembers_iff : agreeMembers ms ns = true ↔
    ∀ member ∈ ms, ∃ y, ns.lookup member.1 = some y ∧ member.2.agrees y = true := by
  induction ms with
  | nil => simp [agreeMembers]
  | cons member ms ih =>
    rw [agreeMembers, Bool.and_eq_true, ih, List.forall_mem_cons]
    refine and_congr_left fun _ => ?_
    cases ns.lookup member.1 with
    | none => simp
    | some y => simp

/-- **Objects agree where their members match**, the keys of the first one being distinct. -/
theorem agrees_object_iff (hnd : (ms.map Prod.fst).Nodup) :
    (object ms).agrees (.object ns) = true ↔ Matched SameMember ms ns := by
  constructor
  · intro h
    obtain ⟨ns', heq, hmatched⟩ := matched_of_agrees hnd h
    rwa [object.inj heq]
  · intro h
    have hkeys : (ms.map Prod.fst).Perm (ns.map Prod.fst) := h.perm_map fun _ _ hsame => hsame.key
    rw [agrees, Bool.and_eq_true, beq_iff_eq, agreeMembers_iff]
    refine ⟨by simpa using hkeys.length_eq, fun member hmem => ?_⟩
    obtain ⟨zs, hzs, hperm⟩ := h
    obtain ⟨n, hn, hsame⟩ := exists_mem_of_forall₂ hzs member hmem
    exact ⟨n.2, lookup_eq_some_of_mem (hkeys.nodup_iff.mp hnd) (hsame.key ▸ hperm.subset hn), hsame.value⟩

/-! ## An equivalence relation -/

/-- What agrees with a value that is no list and no object is that value, or the same number. -/
theorem agrees_leaf_iff (harray : ∀ xs, v ≠ .array xs) (hobject : ∀ ms, v ≠ .object ms) : v.agrees w = true ↔
    v = w ∨ ∃ x y, v = .float x ∧ w = .float y ∧ x.number = y.number := by
  cases v with
  | array xs => exact absurd rfl (harray xs)
  | object ms => exact absurd rfl (hobject ms)
  | float x =>
    cases w with
    | float y =>
      rw [agrees, Binary64.sameNumber_iff]
      refine ⟨fun h => Or.inr ⟨x, y, rfl, rfl, h⟩, ?_⟩
      rintro (heq | ⟨_, _, ⟨⟩, ⟨⟩, h⟩)
      · rw [float.inj heq]
      · exact h
    | _ => simp [agrees]
  | _ => cases w <;> simp [agrees]

theorem agrees_refl (v : Value) (hd : v.hasDistinctKeys = true) : v.agrees v = true := by
  induction v using partInduction with
  | leaf v harray hobject => exact (agrees_leaf_iff harray hobject).mpr (Or.inl rfl)
  | array xs ih =>
    rw [hasDistinctKeys_array] at hd
    exact agrees_array_iff.mpr (List.forall₂_same.mpr fun x hx => ih x hx (hd x hx))
  | object ms ih =>
    obtain ⟨hnd, hvalues⟩ := hasDistinctKeys_object.mp hd
    refine (agrees_object_iff hnd).mpr ⟨ms, List.forall₂_same.mpr fun member hmem => ?_, .refl ms⟩
    exact ⟨rfl, ih member hmem (hvalues member.1 member.2 hmem)⟩

/-- **A comparison that looks left members up on the right holds the other way round**, the keys on the left being
distinct. -/
theorem agrees_symm (v : Value) : ∀ w : Value, v.hasDistinctKeys = true → v.agrees w = true → w.agrees v = true := by
  induction v using partInduction with
  | leaf v harray hobject =>
    intro w hd h
    rcases (agrees_leaf_iff harray hobject).mp h with rfl | ⟨x, y, rfl, rfl, hxy⟩
    · exact agrees_refl v hd
    · exact Binary64.sameNumber_iff.mpr hxy.symm
  | array xs ih =>
    intro w hd h
    obtain ⟨ys, rfl, hpairs⟩ := exists_array_of_agrees h
    rw [hasDistinctKeys_array] at hd
    refine agrees_array_iff.mpr (List.Forall₂.flip ?_)
    exact (forall₂_mem_left hpairs).imp fun x y hxy => ih x hxy.1 y (hd x hxy.1) hxy.2
  | object ms ih =>
    intro w hd h
    obtain ⟨hnd, hvalues⟩ := hasDistinctKeys_object.mp hd
    obtain ⟨ns, rfl, hmatched⟩ := matched_of_agrees hnd h
    have hkeys : (ms.map Prod.fst).Perm (ns.map Prod.fst) := hmatched.perm_map fun _ _ hsame => hsame.key
    refine (agrees_object_iff (hkeys.nodup_iff.mp hnd)).mpr (hmatched.symm fun m hm n hsame => ?_)
    exact ⟨hsame.key.symm, ih m hm n.2 (hvalues m.1 m.2 hm) hsame.value⟩

theorem agrees_trans (u : Value) : ∀ v w : Value, u.agrees v = true → v.agrees w = true → u.agrees w = true := by
  induction u using partInduction with
  | leaf u harray hobject =>
    intro v w huv hvw
    rcases (agrees_leaf_iff harray hobject).mp huv with rfl | ⟨x, y, rfl, rfl, hxy⟩
    · exact hvw
    · cases w with
      | float z => exact Binary64.sameNumber_iff.mpr (hxy.trans (Binary64.sameNumber_iff.mp hvw))
      | _ => cases hvw
  | array xs ih =>
    intro v w huv hvw
    obtain ⟨ys, rfl, hxy⟩ := exists_array_of_agrees huv
    obtain ⟨zs, rfl, hyz⟩ := exists_array_of_agrees hvw
    exact agrees_array_iff.mpr (forall₂_trans (fun x y z hx hy => ih x hx.1 y z hx.2 hy) (forall₂_mem_left hxy) hyz)
  | object ms ih =>
    intro v w huv hvw
    cases v with
    | object ns =>
      cases w with
      | object ks =>
        rw [agrees, Bool.and_eq_true, beq_iff_eq, agreeMembers_iff] at huv hvw ⊢
        refine ⟨huv.1.trans hvw.1, fun m hm => ?_⟩
        obtain ⟨y, hy, hxy⟩ := huv.2 m hm
        obtain ⟨z, hz, hyz⟩ := hvw.2 (m.1, y) (mem_of_lookup_eq_some hy)
        exact ⟨z, hz, ih m hm y z hxy hyz⟩
      | _ => cases hvw
    | _ => cases huv

/-! ## Reordering -/

/-- One value becomes another by one change: somewhere in it, the members of an object are listed in another order, or a
number is written as another double. -/
inductive Reorders : Value → Value → Prop
  | members {ms ns : List (String × Value)} : ms.Perm ns → Reorders (.object ms) (.object ns)
  | number {x y : Binary64} : x.number = y.number → Reorders (.float x) (.float y)
  | element {v w : Value} (before after : List Value) : Reorders v w →
    Reorders (.array (before ++ v :: after)) (.array (before ++ w :: after))
  | value {v w : Value} (before : List (String × Value)) (key : String) (after : List (String × Value)) :
    Reorders v w → Reorders (.object (before ++ (key, v) :: after)) (.object (before ++ (key, w) :: after))

/-- One value becomes another by such changes, one after the other. -/
abbrev Reordered : Value → Value → Prop := Relation.ReflTransGen Reorders

/-- Elements are reordered in place, one after the other. -/
theorem reordered_array (h : List.Forall₂ Reordered xs ys) : ∀ before : List Value,
    Reordered (.array (before ++ xs)) (.array (before ++ ys)) := by
  induction h with
  | nil => exact fun _ => .refl
  | @cons x y xs ys hxy _ ih =>
    intro before
    have hfirst : Reordered (.array (before ++ x :: xs)) (.array (before ++ y :: xs)) :=
      Relation.ReflTransGen.lift (fun v => array (before ++ v :: xs))
        (fun _ _ hstep => .element before xs hstep) _ _ hxy
    have hrest := ih (before ++ [y])
    rw [List.append_assoc, List.append_assoc] at hrest
    exact hfirst.trans hrest

/-- So are the values of members. -/
theorem reordered_object (h : List.Forall₂ (fun m n => m.1 = n.1 ∧ Reordered m.2 n.2) ms ns) :
    ∀ before : List (String × Value), Reordered (.object (before ++ ms)) (.object (before ++ ns)) := by
  induction h with
  | nil => exact fun _ => .refl
  | @cons m n ms ns hmn _ ih =>
    intro before
    obtain ⟨key, x⟩ := m
    obtain ⟨_, y⟩ := n
    obtain ⟨rfl, hxy⟩ := hmn
    have hfirst : Reordered (.object (before ++ (key, x) :: ms)) (.object (before ++ (key, y) :: ms)) :=
      Relation.ReflTransGen.lift (fun v => object (before ++ (key, v) :: ms))
        (fun _ _ hstep => .value before key ms hstep) _ _ hxy
    have hrest := ih (before ++ [(key, y)])
    rw [List.append_assoc, List.append_assoc] at hrest
    exact hfirst.trans hrest

/-- **Values that agree are reordered into each other.** -/
theorem reordered_of_agrees (v : Value) : ∀ w : Value, v.hasDistinctKeys = true → v.agrees w = true →
    Reordered v w := by
  induction v using partInduction with
  | leaf v harray hobject =>
    intro w _ h
    rcases (agrees_leaf_iff harray hobject).mp h with rfl | ⟨x, y, rfl, rfl, hxy⟩
    · exact .refl
    · exact .single (.number hxy)
  | array xs ih =>
    intro w hd h
    obtain ⟨ys, rfl, hpairs⟩ := exists_array_of_agrees h
    rw [hasDistinctKeys_array] at hd
    refine reordered_array ?_ []
    exact (forall₂_mem_left hpairs).imp fun x y hxy => ih x hxy.1 y (hd x hxy.1) hxy.2
  | object ms ih =>
    intro w hd h
    obtain ⟨hnd, hvalues⟩ := hasDistinctKeys_object.mp hd
    obtain ⟨ns, rfl, zs, hpairs, hperm⟩ := matched_of_agrees hnd h
    have hvaluesFirst : Reordered (.object ms) (.object zs) := by
      refine reordered_object ?_ []
      exact (forall₂_mem_left hpairs).imp fun m n hmn =>
        ⟨hmn.2.key, ih m hmn.1 n.2 (hvalues m.1 m.2 hmn.1) hmn.2.value⟩
    exact hvaluesFirst.tail (.members hperm)

/-- **A change keeps the keys distinct, and leaves a value that agrees.** -/
theorem Reorders.agrees (h : Reorders v w) : v.hasDistinctKeys = true →
    w.hasDistinctKeys = true ∧ v.agrees w = true := by
  induction h with
  | @members ms ns hperm =>
    intro hd
    obtain ⟨hnd, hvalues⟩ := hasDistinctKeys_object.mp hd
    refine ⟨hasDistinctKeys_object.mpr ⟨(hperm.map Prod.fst).nodup_iff.mp hnd, fun key x hmem => ?_⟩, ?_⟩
    · exact hvalues key x (hperm.mem_iff.mpr hmem)
    · refine (agrees_object_iff hnd).mpr ⟨ms, List.forall₂_same.mpr fun m hm => ?_, hperm⟩
      exact ⟨rfl, agrees_refl m.2 (hvalues m.1 m.2 hm)⟩
  | number hxy => exact fun _ => ⟨rfl, Binary64.sameNumber_iff.mpr hxy⟩
  | @element v w before after _ ih =>
    intro hd
    rw [hasDistinctKeys_array, List.forall_mem_append, List.forall_mem_cons] at hd
    obtain ⟨hbefore, hv, hafter⟩ := hd
    obtain ⟨hw, hvw⟩ := ih hv
    refine ⟨?_, agrees_array_iff.mpr (List.rel_append ?_ (.cons hvw ?_))⟩
    · rw [hasDistinctKeys_array, List.forall_mem_append, List.forall_mem_cons]
      exact ⟨hbefore, hw, hafter⟩
    · exact List.forall₂_same.mpr fun x hx => agrees_refl x (hbefore x hx)
    · exact List.forall₂_same.mpr fun x hx => agrees_refl x (hafter x hx)
  | @value v w before key after _ ih =>
    intro hd
    obtain ⟨hnd, hvalues⟩ := hasDistinctKeys_object.mp hd
    have hsame : ∀ m ∈ before ++ (key, v) :: after, m.2.agrees m.2 = true := fun m hm =>
      agrees_refl m.2 (hvalues m.1 m.2 hm)
    obtain ⟨hbefore, hrest⟩ := List.forall_mem_append.mp hsame
    obtain ⟨hw, hvw⟩ := ih (hvalues key v (by simp))
    refine ⟨hasDistinctKeys_object.mpr ⟨by simpa using hnd, fun k x hmem => ?_⟩, (agrees_object_iff hnd).mpr
      ⟨before ++ (key, w) :: after, List.rel_append ?_ (.cons ⟨rfl, hvw⟩ ?_), .refl _⟩⟩
    · rcases List.mem_append.mp hmem with hmem | hmem
      · exact hvalues k x (List.mem_append_left _ hmem)
      · rcases List.mem_cons.mp hmem with heq | hmem
        · rw [(Prod.mk.inj heq).2]
          exact hw
        · exact hvalues k x (List.mem_append_right _ (List.mem_cons_of_mem _ hmem))
    · exact List.forall₂_same.mpr fun m hm => ⟨rfl, hbefore m hm⟩
    · exact List.forall₂_same.mpr fun m hm => ⟨rfl, hrest m (List.mem_cons_of_mem _ hm)⟩

/-- **Values that are reordered into each other agree.** -/
theorem Reordered.agrees (h : Reordered v w) (hd : v.hasDistinctKeys = true) :
    w.hasDistinctKeys = true ∧ v.agrees w = true := by
  induction h with
  | refl => exact ⟨hd, agrees_refl v hd⟩
  | tail _ hstep ih =>
    obtain ⟨hmiddle, hagrees⟩ := ih
    obtain ⟨hlast, hagrees'⟩ := hstep.agrees hmiddle
    exact ⟨hlast, agrees_trans v _ _ hagrees hagrees'⟩

/-- **Agreement is an equivalence relation, and it is reordering**, on values whose objects have distinct keys: two
values agree if and only if one becomes the other by listing the members of objects in another order, at any depth,
while elements of arrays keep their places. Whole numbers agree if they are equal, and doubles if they stand for the
same: if they are the same double, both zeros, or both not numbers. -/
theorem agrees_iff_reordered :
    Equivalence (fun v w : {v : Value // v.hasDistinctKeys = true} => v.1.agrees w.1 = true) ∧
      (∀ v w : Value, v.hasDistinctKeys = true → (v.agrees w = true ↔ Reordered v w)) ∧
      (∀ (i : Int) (w : Value), (integer i).agrees w = true ↔ w = .integer i) ∧
      (∀ (x : Binary64) (w : Value), (float x).agrees w = true ↔ ∃ y, w = .float y ∧ x.number = y.number) ∧
      ∀ x y : Binary64, x.number = y.number ↔
        x = y ∨ (x.isZero = true ∧ y.isZero = true) ∨ x.isNaN = true ∧ y.isNaN = true := by
  refine ⟨⟨fun v => agrees_refl v.1 v.2, fun {v w} => agrees_symm v.1 w.1 v.2, fun {u v w} => agrees_trans u.1 v.1 w.1⟩,
    fun v w hd => ⟨reordered_of_agrees v w hd, fun h => (h.agrees hd).2⟩, fun i w => ?_, fun x w => ?_,
    fun _ _ => Binary64.number_eq_iff⟩
  · rw [agrees_leaf_iff (fun _ h => by cases h) fun _ h => by cases h]
    simp [eq_comm]
  · rw [agrees_leaf_iff (fun _ h => by cases h) fun _ h => by cases h]
    constructor
    · rintro (rfl | ⟨_, y, ⟨⟩, rfl, hxy⟩)
      · exact ⟨x, rfl, rfl⟩
      · exact ⟨y, rfl, hxy⟩
    · rintro ⟨y, rfl, hxy⟩
      exact Or.inr ⟨x, y, rfl, rfl, hxy⟩

/-- Two orders inside an array, the two zeros, and two doubles with different words that are not numbers. -/
theorem agrees_iff_reordered_inside :
    let v := object [("a", .float .zero), ("b", .array [.object [("c", .null), ("d", .integer 1)],
      .float ⟨false, ⟨Binary64.limit + 1, by decide⟩⟩])]
    let w := object [("b", .array [.object [("d", .integer 1), ("c", .null)],
      .float ⟨true, ⟨Binary64.limit + 2, by decide⟩⟩]), ("a", .float Binary64.zero.neg)]
    v.hasDistinctKeys = true ∧ Reordered v w := by
  intro v w
  have hd : v.hasDistinctKeys = true := by decide
  exact ⟨hd, (agrees_iff_reordered.2.1 v w hd).mp (by decide)⟩

/-- Elements keep their places, a whole number is no double, and the two infinities differ. -/
example : (array [.null, .bool true]).agrees (.array [.bool true, .null]) = false ∧
    (integer 0).agrees (.float .zero) = false ∧
    let infinity : Binary64 := ⟨false, ⟨Binary64.limit, by decide⟩⟩
    (float infinity).agrees (.float infinity.neg) = false := by decide

end Value

end TypedSettings
