import TypedSettings.Proofs.SideBySide
import TypedSettings.Proofs.Value.Reach

/-!
# Values that differ in the order of members

Objects that agree have members that match, key by key (`matched_of_agrees`); so do then the objects and the members
that two agreeing documents reach, each with one at the same address (`matched_objects`, `matched_reached`).
-/

namespace TypedSettings

/-! ## Objects that agree -/

/-- Two members have the same key and values that agree. -/
structure SameMember (m n : String × Value) : Prop where
  key : m.1 = n.1
  value : m.2.agrees n.2 = true

/-- Two objects are at the same address and have members that match. -/
structure SameObject (o p : Address × List (String × Value)) : Prop where
  address : o.1 = p.1
  members : Matched SameMember o.2 p.2

/-- Two members are at the same place and have values that agree. -/
structure Member.Same (m n : Member) : Prop where
  level : m.level = n.level
  key : m.key = n.key
  value : m.value.agrees n.value = true

namespace Value

theorem agreeMembers_congr : ∀ {ms ns ns' : List (String × Value)},
    (∀ key ∈ ms.map Prod.fst, ns.lookup key = ns'.lookup key) → agreeMembers ms ns = agreeMembers ms ns'
  | [], _, _, _ => rfl
  | (key, x) :: ms, ns, ns', h => by
    rw [List.map_cons, List.forall_mem_cons] at h
    rw [agreeMembers, agreeMembers, h.1, agreeMembers_congr h.2]

/-- Members whose keys are distinct match others, as many, where each is found there under its key. -/
theorem matched_of_agreeMembers : ∀ {ms ns : List (String × Value)}, (ms.map Prod.fst).Nodup →
    ms.length = ns.length → agreeMembers ms ns = true → Matched SameMember ms ns
  | [], ns, _, hlen, _ => by
    rw [List.eq_nil_of_length_eq_zero hlen.symm]
    exact .nil
  | (key, x) :: ms, ns, hnd, hlen, h => by
    rw [List.map_cons, List.nodup_cons] at hnd
    rw [agreeMembers, Bool.and_eq_true] at h
    obtain ⟨hfirst, hrest⟩ := h
    split at hfirst
    · rename_i y hlook
      obtain ⟨before, after, rfl, -⟩ := List.lookup_eq_some_iff.mp hlook
      -- the other members are found among those that are left
      have hleft : agreeMembers ms (before ++ after) = true := by
        rw [← hrest]
        refine agreeMembers_congr fun k hk => ?_
        have hne : k ≠ key := fun e => hnd.1 (e ▸ hk)
        rw [List.lookup_append, List.lookup_append, List.lookup_cons, beq_false_of_ne hne]
      have hlen' : ms.length = (before ++ after).length := by
        simp only [List.length_append, List.length_cons] at hlen ⊢
        omega
      exact ((matched_of_agreeMembers hnd.2 hlen' hleft).cons ⟨rfl, hfirst⟩).trans_perm List.perm_middle.symm
    · cases hfirst

/-- **Objects that agree have members that match**, where the keys of the first one are distinct. -/
theorem matched_of_agrees {ms : List (String × Value)} {w : Value} (hnd : (ms.map Prod.fst).Nodup)
    (h : (object ms).agrees w = true) : ∃ ns, w = .object ns ∧ Matched SameMember ms ns := by
  cases w with
  | object ns =>
    rw [agrees, Bool.and_eq_true, beq_iff_eq] at h
    exact ⟨ns, rfl, matched_of_agreeMembers hnd h.1 h.2⟩
  | _ => cases h

/-- Nothing else agrees with an object. -/
theorem ne_object_of_agrees {v w : Value} (hv : ∀ members, v ≠ .object members) (h : v.agrees w = true) :
    ∀ members, w ≠ .object members := by
  rintro members rfl
  cases v with
  | object ms => exact hv ms rfl
  | _ => cases h

theorem eq_null_iff_of_agrees {v w : Value} (h : v.agrees w = true) : v = .null ↔ w = .null := by
  constructor
  · rintro rfl
    cases w with
    | null => rfl
    | _ => cases h
  · rintro rfl
    cases v with
    | null => rfl
    | _ => cases h

/-- **Agreeing documents have the same objects**, up to the order of members. -/
theorem matched_objects {v : Value} : ∀ {w : Value} {base : Address}, v.hasDistinctKeys = true →
    v.agrees w = true → Matched SameObject (objects base v) (objects base w) := by
  induction v using memberInduction with
  | other v hv =>
    intro w base _ h
    rw [objects_eq_nil base hv, objects_eq_nil base (ne_object_of_agrees hv h)]
    exact .nil
  | object ms ih =>
    intro w base hd h
    obtain ⟨hnd, hvalues⟩ := hasDistinctKeys_object.mp hd
    obtain ⟨ns, rfl, hmatched⟩ := matched_of_agrees hnd h
    rw [objects, objects, objectsBelow_eq, objectsBelow_eq]
    refine .cons ⟨rfl, hmatched⟩ (hmatched.flatMap ?_)
    rintro ⟨key, x⟩ hmem ⟨_, y⟩ ⟨rfl, hxy⟩
    exact ih key x hmem (hvalues key x hmem) hxy

/-- **Agreeing documents reach the same members**, up to their order. -/
theorem matched_reached {v : Value} : ∀ {w : Value} {base : Address}, v.hasDistinctKeys = true →
    v.agrees w = true → Matched Member.Same (reached base v) (reached base w) := by
  induction v using memberInduction with
  | other v hv =>
    intro w base _ h
    rw [reached_eq_nil base hv, reached_eq_nil base (ne_object_of_agrees hv h)]
    exact .nil
  | object ms ih =>
    intro w base hd h
    obtain ⟨hnd, hvalues⟩ := hasDistinctKeys_object.mp hd
    obtain ⟨ns, rfl, hmatched⟩ := matched_of_agrees hnd h
    rw [reached, reached, reachedFrom_eq, reachedFrom_eq]
    refine hmatched.flatMap ?_
    rintro ⟨key, x⟩ hmem ⟨_, y⟩ ⟨rfl, hxy⟩
    exact (ih key x hmem (hvalues key x hmem) hxy).append (.cons ⟨rfl, rfl, hxy⟩ .nil)

end Value

end TypedSettings
