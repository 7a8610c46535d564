import Mathlib.Data.List.Chain
import Mathlib.Data.List.DropRight
import TypedSettings.Identifier
import TypedSettings.Proofs.FreeName

/-!
# Identifiers are well-formed

* every raw key gets a well-formed identifier (`isWellFormed_ofKey`): `squeeze` leaves letters, digits and single
  underscores, `trim` takes the underscores from the ends, and `finish` mends the start;
* a well-formed identifier stays so with a number behind it (`isWellFormed_numbered`), and the numbered identifiers of
  one name are distinct (`numbered_injective`).
-/

namespace TypedSettings.Identifier

/-! ## Single underscores -/

/-- No two underscores follow each other. -/
def SingleUnderscores (cs : List Char) : Prop := cs.IsChain fun a b => a = '_' → b ≠ '_'

theorem hasDoubleUnderscore_eq_false_iff : ∀ {cs : List Char},
    hasDoubleUnderscore cs = false ↔ SingleUnderscores cs
  | [] => by simp [hasDoubleUnderscore, SingleUnderscores]
  | [c] => by
    simp only [SingleUnderscores, List.IsChain.singleton, iff_true]
    unfold hasDoubleUnderscore
    split
    · simp_all
    · simp_all [hasDoubleUnderscore]
    · rfl
  | c :: d :: cs => by
    have ih : hasDoubleUnderscore (d :: cs) = false ↔ _ := hasDoubleUnderscore_eq_false_iff
    simp only [SingleUnderscores, List.isChain_cons_cons] at ih ⊢
    by_cases h : c = '_' ∧ d = '_'
    · obtain ⟨rfl, rfl⟩ := h
      simp [hasDoubleUnderscore]
    · have hstep : hasDoubleUnderscore (c :: d :: cs) = hasDoubleUnderscore (d :: cs) := by
        rw [hasDoubleUnderscore]
        intro c' e₁ e₂
        simp_all
      rw [hstep, ih]
      simp only [iff_and_self]
      exact fun _ hc hd => h ⟨hc, hd⟩

/-- What makes a text an identifier, part by part. -/
theorem isWellFormed_iff {text : String} : isWellFormed text = true ↔
    startsWell text.toList = true ∧ (∀ c ∈ text.toList, isWordChar c = true ∨ c = '_') ∧
      SingleUnderscores text.toList ∧ text.toList.getLast? ≠ some '_' := by
  simp only [isWellFormed, Bool.and_eq_true, List.all_eq_true, Bool.or_eq_true, beq_iff_eq, Bool.not_eq_true',
    bne_iff_ne, hasDoubleUnderscore_eq_false_iff, and_assoc]

/-! ## The identifier of a key -/

theorem ne_underscore {c : Char} (h : isWordChar c = true) : c ≠ '_' := by
  rintro rfl
  exact absurd h (by decide)

theorem mem_squeeze : ∀ {cs : List Char} {after : Bool} {c : Char}, c ∈ squeeze after cs →
    isWordChar c = true ∨ c = '_'
  | [], _, _, h => by cases h
  | d :: cs, after, c, h => by
    simp only [squeeze] at h
    split at h
    · rename_i hd
      rcases List.mem_cons.mp h with rfl | h
      · exact Or.inl hd
      · exact mem_squeeze h
    · split at h
      · exact mem_squeeze h
      · rcases List.mem_cons.mp h with rfl | h
        · exact Or.inr rfl
        · exact mem_squeeze h

/-- Behind an underscore no underscore is written first. -/
theorem head?_squeeze : ∀ (cs : List Char), (squeeze true cs).head? ≠ some '_'
  | [] => by simp [squeeze]
  | c :: cs => by
    simp only [squeeze]
    split
    · rename_i hc
      simpa using ne_underscore hc
    · exact head?_squeeze cs

theorem singleUnderscores_squeeze : ∀ (cs : List Char) (after : Bool), SingleUnderscores (squeeze after cs)
  | [], _ => List.IsChain.nil
  | c :: cs, after => by
    simp only [squeeze]
    split
    · rename_i hc
      exact List.isChain_cons.mpr
        ⟨fun d _ e => absurd e (ne_underscore hc), singleUnderscores_squeeze cs false⟩
    · split
      · exact singleUnderscores_squeeze cs true
      · refine List.isChain_cons.mpr ⟨?_, singleUnderscores_squeeze cs true⟩
        rintro d hd _ rfl
        exact head?_squeeze cs hd

theorem trim_eq (cs : List Char) : trim cs = (cs.dropWhile (· == '_')).rdropWhile (· == '_') := rfl

theorem trim_isInfix (cs : List Char) : trim cs <:+: cs := by
  rw [trim_eq]
  exact (List.rdropWhile_prefix _ _).isInfix.trans (List.dropWhile_suffix _).isInfix

theorem head?_trim (cs : List Char) : (trim cs).head? ≠ some '_' := by
  intro h
  rw [trim_eq] at h
  obtain ⟨rest, hrest⟩ := List.rdropWhile_prefix (· == '_') (cs.dropWhile (· == '_'))
  have hnot := List.head?_dropWhile_not (· == '_') cs
  rw [← hrest, List.head?_append, h] at hnot
  simp at hnot

theorem getLast?_trim (cs : List Char) : (trim cs).getLast? ≠ some '_' := by
  intro h
  rw [trim_eq] at h
  obtain ⟨hne, hlast⟩ := List.mem_getLast?_eq_getLast h
  exact List.rdropWhile_last_not _ _ hne (by rw [← hlast]; rfl)

theorem mem_finish {cs : List Char} {c : Char} (h : c ∈ finish cs) : isWordChar c = true ∨ c = '_' ∨ c ∈ cs := by
  unfold finish at h
  split at h
  · have hword : placeholder.all isWordChar = true := by decide
    exact Or.inl (List.all_eq_true.mp hword c h)
  · split at h
    · rcases List.mem_cons.mp h with h | h
      · exact Or.inr (Or.inl h)
      · exact Or.inr (Or.inr h)
    · exact Or.inr (Or.inr h)

theorem singleUnderscores_finish {cs : List Char} (h : SingleUnderscores cs) : SingleUnderscores (finish cs) := by
  unfold finish
  split
  · exact hasDoubleUnderscore_eq_false_iff.mp (by decide)
  · split
    · rename_i c cs hc
      refine List.isChain_cons_cons.mpr ⟨?_, h⟩
      rintro - rfl
      exact absurd hc (by decide)
    · exact h

theorem getLast?_finish {cs : List Char} (h : cs.getLast? ≠ some '_') : (finish cs).getLast? ≠ some '_' := by
  unfold finish
  split
  · decide
  · split
    · rwa [List.getLast?_cons_cons]
    · exact h

theorem startsWell_finish {cs : List Char} (hchars : ∀ c ∈ cs, isWordChar c = true ∨ c = '_')
    (hhead : cs.head? ≠ some '_') : startsWell (finish cs) = true := by
  unfold finish
  split
  · decide
  · rename_i c cs
    split
    · rename_i hc
      exact hc
    · rename_i hc
      have hne : c ≠ '_' := by simpa using hhead
      have hword : isWordChar c = true := (hchars c List.mem_cons_self).resolve_right hne
      have halpha : c.isAlpha = true := by
        simpa [isWordChar, Char.isAlphanum, hc] using hword
      rw [startsWell.eq_2 _ _ (by simp_all)]
      exact halpha

/-- Whatever text is squeezed, trimmed and finished, what comes out is well-formed. -/
theorem isWellFormed_finish (text : List Char) :
    isWellFormed (String.ofList (finish (trim (squeeze false text)))) = true := by
  rw [isWellFormed_iff, String.toList_ofList]
  generalize squeezed : squeeze false text = cs
  have hchars : ∀ c ∈ trim cs, isWordChar c = true ∨ c = '_' := by
    intro c hc
    rw [← squeezed] at hc
    exact mem_squeeze ((trim_isInfix _).mem hc)
  have hsingle : SingleUnderscores (trim cs) := by
    rw [← squeezed]
    exact List.IsChain.infix (singleUnderscores_squeeze _ false) (trim_isInfix _)
  refine ⟨startsWell_finish hchars (head?_trim cs), ?_, singleUnderscores_finish hsingle,
    getLast?_finish (getLast?_trim cs)⟩
  intro c hc
  rcases mem_finish hc with h | h | h
  · exact Or.inl h
  · exact Or.inr h
  · exact hchars c h

/-- **Every key gets a well-formed identifier.** -/
theorem isWellFormed_ofKey (key : String) : isWellFormed (ofKey key).text = true := isWellFormed_finish _

/-! ## Numbered identifiers -/

theorem toList_numbered (name : Identifier) (n : Nat) :
    (name.numbered n).text.toList = name.text.toList ++ Nat.toDigits 10 n := by
  simp [numbered, Nat.toString_eq_repr, Nat.toList_repr]

theorem numbered_injective (name : Identifier) : Function.Injective name.numbered := by
  intro m n h
  have htexts := congrArg (String.toList ∘ Identifier.text) h
  rw [Function.comp_apply, Function.comp_apply, toList_numbered, toList_numbered, List.append_cancel_left_eq] at htexts
  exact toDigits_ten_injective htexts

theorem numbered_ne (name : Identifier) (n : Nat) : name.numbered n ≠ name := by
  intro h
  have htexts := congrArg (String.toList ∘ Identifier.text) h
  rw [Function.comp_apply, toList_numbered] at htexts
  exact Nat.toDigits_ne_nil (List.append_right_eq_self.mp htexts)

theorem startsWell_append {cs ds : List Char} (h : startsWell cs = true) : startsWell (cs ++ ds) = true := by
  unfold startsWell at h
  split at h
  · exact h
  · rename_i c cs hne
    cases cs with
    | nil =>
      have hc : c ≠ '_' := by
        rintro rfl
        exact absurd h (by decide)
      rw [List.cons_append, startsWell.eq_2 _ _ (by simp_all)]
      exact h
    | cons d cs =>
      rw [List.cons_append, startsWell.eq_2 _ _ (by simp_all)]
      exact h
  · cases h

/-- Letters and digits behind it keep an identifier well-formed. -/
theorem isWellFormed_of_toList_append {text longer : String} {more : List Char} (h : isWellFormed text = true)
    (hlonger : longer.toList = text.toList ++ more) (hmore : ∀ c ∈ more, isWordChar c = true) :
    isWellFormed longer = true := by
  rw [isWellFormed_iff] at h ⊢
  obtain ⟨hstart, hchars, hsingle, hlast⟩ := h
  rw [hlonger]
  refine ⟨startsWell_append hstart, ?_, ?_, ?_⟩
  · intro c hc
    rcases List.mem_append.mp hc with hc | hc
    · exact hchars c hc
    · exact Or.inl (hmore c hc)
  · refine List.isChain_append.mpr ⟨hsingle, ?_, ?_⟩
    · exact (List.pairwise_of_forall_mem_list fun c hc _ _ e => absurd e (ne_underscore (hmore c hc))).isChain
    · intro c hc d hd _
      exact ne_underscore (hmore d (List.mem_of_mem_head? hd))
  · rw [List.getLast?_append]
    cases hd : more.getLast? with
    | none => simpa using hlast
    | some d => simpa using ne_underscore (hmore d (List.mem_of_getLast? hd))

/-- So do letters and digits with an underscore in front of them. -/
theorem isWellFormed_of_toList_append_underscore {text longer : String} {more : List Char}
    (h : isWellFormed text = true) (hlonger : longer.toList = text.toList ++ '_' :: more) (hne : more ≠ [])
    (hmore : ∀ c ∈ more, isWordChar c = true) : isWellFormed longer = true := by
  rw [isWellFormed_iff] at h ⊢
  obtain ⟨hstart, hchars, hsingle, hlast⟩ := h
  rw [hlonger]
  refine ⟨startsWell_append hstart, ?_, ?_, ?_⟩
  · intro c hc
    rcases List.mem_append.mp hc with hc | hc
    · exact hchars c hc
    · rcases List.mem_cons.mp hc with hc | hc
      · exact Or.inr hc
      · exact Or.inl (hmore c hc)
  · have hdigits : SingleUnderscores more :=
      (List.pairwise_of_forall_mem_list fun c hc _ _ e => absurd e (ne_underscore (hmore c hc))).isChain
    refine List.isChain_append.mpr ⟨hsingle, List.isChain_cons.mpr ⟨fun d hd _ => ?_, hdigits⟩, fun c hc _ _ he => ?_⟩
    · exact ne_underscore (hmore d (List.mem_of_mem_head? hd))
    · exact absurd (he ▸ hc) hlast
  · rw [List.getLast?_append_of_ne_nil _ (List.cons_ne_nil _ _), List.getLast?_cons_of_ne_nil hne]
    exact fun hc => ne_underscore (hmore '_' (List.mem_of_getLast? hc)) rfl

theorem isWordChar_of_mem_toDigits {n : Nat} {c : Char} (h : c ∈ Nat.toDigits 10 n) : isWordChar c = true := by
  simp [isWordChar, Char.isAlphanum, Nat.isDigit_of_mem_toDigits (by decide) (by decide) h]

/-- **A number keeps an identifier well-formed.** -/
theorem isWellFormed_numbered {name : Identifier} (h : isWellFormed name.text = true) (n : Nat) :
    isWellFormed (name.numbered n).text = true :=
  isWellFormed_of_toList_append h (toList_numbered name n) fun _ => isWordChar_of_mem_toDigits

end TypedSettings.Identifier
