import Mathlib.Data.List.Perm.Basic

/-!
# Lists side by side

What is known of two lists whose elements are related place by place is known of their elements. Two lists match if the
first one is related, place by place, to a reordering of the second (`Matched`): so elements are paired that stand in
another order.
-/

namespace TypedSettings

/-! ## Place by place -/

theorem forall₂_flatMap {α β γ : Type} {R : β → γ → Prop} {f : α → List β} {g : α → List γ} : ∀ {xs : List α},
    (∀ x ∈ xs, List.Forall₂ R (f x) (g x)) → List.Forall₂ R (xs.flatMap f) (xs.flatMap g)
  | [], _ => .nil
  | x :: _, h => List.rel_append (h x List.mem_cons_self) (forall₂_flatMap fun y hy => h y (List.mem_cons_of_mem x hy))

theorem exists_mem_of_forall₂ {α β : Type} {R : α → β → Prop} : ∀ {xs : List α} {ys : List β},
    List.Forall₂ R xs ys → ∀ x ∈ xs, ∃ y ∈ ys, R x y
  | _ :: _, _ :: _, .cons hxy hrest, x, hx => by
    rcases List.mem_cons.mp hx with rfl | hx
    · exact ⟨_, List.mem_cons_self, hxy⟩
    · obtain ⟨y, hy, hR⟩ := exists_mem_of_forall₂ hrest x hx
      exact ⟨y, List.mem_cons_of_mem _ hy, hR⟩

/-- The elements that are related are those of the lists. -/
theorem forall₂_mem_left {α β : Type} {R : α → β → Prop} {xs : List α} {ys : List β} (h : List.Forall₂ R xs ys) :
    List.Forall₂ (fun x y => x ∈ xs ∧ R x y) xs ys :=
  (List.forall₂_and_left xs ys).mpr ⟨fun _ hx => hx, h⟩

/-- Relations between lists side by side are composed element by element. -/
theorem forall₂_trans {α β γ : Type} {R : α → β → Prop} {S : β → γ → Prop} {T : α → γ → Prop}
    (hT : ∀ a b c, R a b → S b c → T a c) : ∀ {as : List α} {bs : List β} {cs : List γ}, List.Forall₂ R as bs →
    List.Forall₂ S bs cs → List.Forall₂ T as cs
  | [], [], [], .nil, .nil => .nil
  | _ :: _, _ :: _, _ :: _, .cons hR hRs, .cons hS hSs => .cons (hT _ _ _ hR hS) (forall₂_trans hT hRs hSs)

/-! ## Matching lists -/

/-- The first list is related place by place to a reordering of the second. -/
def Matched {α β : Type} (R : α → β → Prop) (xs : List α) (ys : List β) : Prop :=
  ∃ zs, List.Forall₂ R xs zs ∧ zs.Perm ys

namespace Matched

variable {α β γ δ : Type} {R : α → β → Prop} {S : γ → δ → Prop} {xs xs' : List α} {ys ys' : List β}

theorem nil : Matched R [] [] := ⟨[], .nil, .nil⟩

theorem cons {x : α} {y : β} (hxy : R x y) (h : Matched R xs ys) : Matched R (x :: xs) (y :: ys) := by
  obtain ⟨zs, hzs, hperm⟩ := h
  exact ⟨y :: zs, .cons hxy hzs, hperm.cons y⟩

theorem append (h : Matched R xs ys) (h' : Matched R xs' ys') : Matched R (xs ++ xs') (ys ++ ys') := by
  obtain ⟨zs, hzs, hperm⟩ := h
  obtain ⟨zs', hzs', hperm'⟩ := h'
  exact ⟨zs ++ zs', List.rel_append hzs hzs', hperm.append hperm'⟩

/-- A reordering behind the second list changes nothing. -/
theorem trans_perm (h : Matched R xs ys) (hperm : ys.Perm ys') : Matched R xs ys' := by
  obtain ⟨zs, hzs, hzy⟩ := h
  exact ⟨zs, hzs, hzy.trans hperm⟩

/-- What is listed element by element matches where it does for related elements. -/
theorem flatMap {f : α → List γ} {g : β → List δ} (h : Matched R xs ys)
    (hfg : ∀ x ∈ xs, ∀ y, R x y → Matched S (f x) (g y)) : Matched S (xs.flatMap f) (ys.flatMap g) := by
  obtain ⟨zs, hzs, hperm⟩ := h
  refine trans_perm ?_ (hperm.flatMap_right g)
  clear hperm
  induction hzs with
  | nil => exact nil
  | cons hxy _ ih =>
    rw [List.flatMap_cons, List.flatMap_cons]
    exact (hfg _ List.mem_cons_self _ hxy).append (ih fun x hx => hfg x (List.mem_cons_of_mem _ hx))

theorem filter {p : α → Bool} {q : β → Bool} (h : Matched R xs ys) (hpq : ∀ x y, R x y → p x = q y) :
    Matched R (xs.filter p) (ys.filter q) := by
  obtain ⟨zs, hzs, hperm⟩ := h
  refine trans_perm ?_ (hperm.filter q)
  clear hperm
  induction hzs with
  | nil => exact nil
  | @cons x y _ _ hxy _ ih =>
    rw [List.filter_cons, List.filter_cons, hpq x y hxy]
    split
    · exact ih.cons hxy
    · exact ih

/-- Views that do not tell related elements apart are reorderings of each other. -/
theorem perm_map {f : α → γ} {g : β → γ} (h : Matched R xs ys) (hfg : ∀ x y, R x y → f x = g y) :
    (xs.map f).Perm (ys.map g) := by
  obtain ⟨zs, hzs, hperm⟩ := h
  have heq : xs.map f = zs.map g := by
    rw [← List.forall₂_eq_eq_eq, List.forall₂_map_left_iff, List.forall₂_map_right_iff]
    exact hzs.imp hfg
  rw [heq]
  exact hperm.map g

/-- The same of views that are lists. -/
theorem perm_flatMap {f : α → List γ} {g : β → List γ} (h : Matched R xs ys)
    (hfg : ∀ x y, R x y → (f x).Perm (g y)) : (xs.flatMap f).Perm (ys.flatMap g) := by
  obtain ⟨zs, hzs, hperm⟩ := h
  refine List.Perm.trans ?_ (hperm.flatMap_right g)
  clear hperm
  induction hzs with
  | nil => exact .nil
  | cons hxy _ ih =>
    rw [List.flatMap_cons, List.flatMap_cons]
    exact (hfg _ _ hxy).append ih

/-- Lists that are paired with matching ones match by way of their partners. -/
theorem carry {T : γ → α → Prop} {T' : δ → β → Prop} {us : List γ} {ws : List δ} (hus : List.Forall₂ T us xs)
    (h : Matched R xs ys) (hws : List.Forall₂ T' ws ys) :
    Matched (fun u w => ∃ x y, T u x ∧ R x y ∧ T' w y) us ws := by
  obtain ⟨zs, hzs, hperm⟩ := h
  obtain ⟨ws', hws', hperm'⟩ := List.perm_comp_forall₂ hperm (List.Forall₂.flip (R := flip T') hws)
  refine ⟨ws', ?_, hperm'⟩
  clear hperm hperm' hws
  induction hus generalizing zs ws' with
  | nil =>
    cases hzs
    cases hws'
    exact .nil
  | cons hux _ ih =>
    cases hzs with
    | cons hxz hzs =>
      cases hws' with
      | cons hwz hws' => exact .cons ⟨_, _, hux, hxz, hwz⟩ (ih _ hzs _ hws')

theorem forall_iff {P : α → Prop} {Q : β → Prop} (h : Matched R xs ys) (hPQ : ∀ x y, R x y → (P x ↔ Q y)) :
    (∀ x ∈ xs, P x) ↔ ∀ y ∈ ys, Q y := by
  obtain ⟨zs, hzs, hperm⟩ := h
  have hmem : (∀ y ∈ ys, Q y) ↔ ∀ z ∈ zs, Q z := forall_congr' fun z => by rw [hperm.mem_iff]
  rw [hmem]
  clear hmem hperm
  induction hzs with
  | nil => exact iff_of_true (List.forall_mem_nil _) (List.forall_mem_nil _)
  | cons hxy _ ih =>
    rw [List.forall_mem_cons, List.forall_mem_cons]
    exact and_congr (hPQ _ _ hxy) ih

theorem exists_iff {P : α → Prop} {Q : β → Prop} (h : Matched R xs ys) (hPQ : ∀ x y, R x y → (P x ↔ Q y)) :
    (∃ x ∈ xs, P x) ↔ ∃ y ∈ ys, Q y := by
  have hnone := h.forall_iff fun x y hxy => not_congr (hPQ x y hxy)
  simpa using not_congr hnone

/-- Lists match the other way round where related elements are related so. -/
theorem symm {S : β → α → Prop} (h : Matched R xs ys) (hRS : ∀ x ∈ xs, ∀ y, R x y → S y x) : Matched S ys xs := by
  obtain ⟨zs, hzs, hperm⟩ := h
  have hback : List.Forall₂ S zs xs := by
    clear hperm
    induction hzs with
    | nil => exact .nil
    | cons hxy _ ih =>
      obtain ⟨hfirst, hrest⟩ := List.forall_mem_cons.mp hRS
      exact .cons (hfirst _ hxy) (ih hrest)
  obtain ⟨us, hus, hperm'⟩ := List.perm_comp_forall₂ hperm.symm hback
  exact ⟨us, hus, hperm'⟩

end Matched

section Forall₂

variable {α β γ : Type} {xs : List α} {ys : List β} {P : α → Prop} {Q : β → Prop}

theorem exists_mem_iff_of_forall₂ {R : α → β → Prop} (h : List.Forall₂ R xs ys)
    (hPQ : ∀ x y, R x y → (P x ↔ Q y)) : (∃ x ∈ xs, P x) ↔ ∃ y ∈ ys, Q y :=
  Matched.exists_iff ⟨ys, h, .refl ys⟩ hPQ

/-- Two lists that a third one pairs up with. -/
theorem forall_mem_iff_of_forall₂ {R : γ → α → Prop} {S : γ → β → Prop} {zs : List γ} (h : List.Forall₂ R zs xs)
    (h' : List.Forall₂ S zs ys) (hPQ : ∀ z x y, R z x → S z y → (P x ↔ Q y)) : (∀ x ∈ xs, P x) ↔ ∀ y ∈ ys, Q y := by
  have hpairs : List.Forall₂ (fun x y => P x ↔ Q y) xs ys :=
    forall₂_trans (fun x z y hzx hzy => hPQ z x y hzx hzy) (List.Forall₂.flip (R := flip R) h) h'
  exact Matched.forall_iff ⟨ys, hpairs, .refl ys⟩ fun _ _ hxy => hxy

end Forall₂

end TypedSettings
