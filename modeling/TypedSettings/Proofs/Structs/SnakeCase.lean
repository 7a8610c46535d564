import TypedSettings.Proofs.Structs.Plan

/-!
# Names in lower case

`snakeCase` writes every character in lower case, with an underscore in front of a capital letter that begins a word
(`snakeChars_cons`). Such a letter stands behind a letter or a digit, so that an identifier stays one
(`isWellFormed_snakeCase`), and no capital letter is left (`lacks_isUpper_snakeCase`). Only underscores come in
(`filter_snakeChars`), so that a name keeps its word; and a second time nothing changes (`snakeCase_keeps`).
-/

namespace TypedSettings.Structs

open Identifier Text

theorem toLower_eq_underscore_iff {c : Char} : c.toLower = '_' ↔ c = '_' := by
  cases h : c.isUpper with
  | false => rw [toLower_eq_self h]
  | true =>
    refine iff_of_false (ne_underscore (isWordChar_toLower h)) ?_
    rintro rfl
    cases h

/-- Every character is written in lower case, behind an underscore if it begins a word. -/
theorem snakeChars_cons (previous : Option Char) (c : Char) (cs : List Char) : snakeChars previous (c :: cs) =
    (if c.isUpper && beginsWord previous cs then ['_'] else []) ++ c.toLower :: snakeChars (some c) cs := by
  rw [snakeChars]
  cases hupper : c.isUpper with
  | false => rw [toLower_eq_self hupper]; rfl
  | true => cases beginsWord previous cs <;> rfl

/-- What begins a word stands behind a letter or a digit. -/
theorem isWordChar_of_beginsWord {p : Char} {cs : List Char} (h : beginsWord (some p) cs = true) :
    isWordChar p = true := by
  simp only [beginsWord, Bool.or_eq_true, Bool.and_eq_true] at h
  simp only [isWordChar, Char.isAlphanum, isAlpha_iff, Bool.or_eq_true]
  tauto

/-- **No capital letter is left.** -/
theorem lacks_isUpper_snakeCase (name : String) : Lacks Char.isUpper (snakeCase name) := by
  have hchars : ∀ (cs : List Char) (previous : Option Char), ∀ c ∈ snakeChars previous cs, c.isUpper = false := by
    intro cs
    induction cs with
    | nil => exact fun _ => List.forall_mem_nil _
    | cons d cs ih =>
      intro previous
      rw [snakeChars_cons]
      refine List.forall_mem_append.mpr ⟨?_, List.forall_mem_cons.mpr ⟨isUpper_toLower d, ih (some d)⟩⟩
      split
      · exact List.forall_mem_singleton.mpr rfl
      · exact List.forall_mem_nil _
  intro c hc
  rw [snakeCase, String.toList_ofList] at hc
  exact hchars name.toList none c hc

/-- An underscore is written first only behind a letter or a digit, or for an underscore. -/
theorem head?_snakeChars {previous : Option Char} {cs : List Char} (h : (snakeChars previous cs).head? = some '_') :
    cs.head? = some '_' ∨ ∃ p, previous = some p ∧ isWordChar p = true := by
  cases cs with
  | nil => cases h
  | cons c cs =>
    rw [snakeChars_cons] at h
    split_ifs at h with hbegins
    · right
      cases previous with
      | none => simp [beginsWord] at hbegins
      | some p => exact ⟨p, rfl, isWordChar_of_beginsWord (Bool.and_eq_true_iff.mp hbegins).2⟩
    · left
      rw [List.nil_append, List.head?_cons, Option.some_inj, toLower_eq_underscore_iff] at h
      rw [h]
      rfl

theorem singleUnderscores_snakeChars : ∀ {cs : List Char} (previous : Option Char), SingleUnderscores cs →
    SingleUnderscores (snakeChars previous cs)
  | [], _, _ => List.IsChain.nil
  | c :: cs, previous, h => by
    have hbehind := singleUnderscores_snakeChars (some c) h.tail
    have hrest : SingleUnderscores (c.toLower :: snakeChars (some c) cs) := by
      refine List.isChain_cons.mpr ⟨?_, hbehind⟩
      rintro d hd hc rfl
      rw [toLower_eq_underscore_iff] at hc
      rcases head?_snakeChars hd with hhead | ⟨p, hp, hword⟩
      · exact (List.isChain_cons.mp h).1 '_' hhead hc rfl
      · exact ne_underscore hword (Option.some_inj.mp hp ▸ hc)
    rw [snakeChars_cons]
    split_ifs with hbegins
    · refine List.isChain_cons_cons.mpr ⟨fun _ => ?_, hrest⟩
      exact ne_underscore (isWordChar_toLower (Bool.and_eq_true_iff.mp hbegins).1)
    · exact hrest

theorem getLast?_snakeChars : ∀ (cs : List Char) (previous : Option Char),
    (snakeChars previous cs).getLast? = cs.getLast?.map Char.toLower
  | [], _ => rfl
  | [c], previous => by
    rw [snakeChars_cons, List.getLast?_append_of_ne_nil _ (List.cons_ne_nil _ _)]
    rfl
  | c :: d :: cs, previous => by
    have hne : snakeChars (some c) (d :: cs) ≠ [] := by
      rw [snakeChars_cons]
      exact List.append_ne_nil_of_right_ne_nil _ (List.cons_ne_nil _ _)
    rw [snakeChars_cons, List.getLast?_append_of_ne_nil _ (List.cons_ne_nil _ _), List.getLast?_cons_of_ne_nil hne,
      getLast?_snakeChars (d :: cs), List.getLast?_cons_cons]

theorem startsWell_snakeChars {cs : List Char} (h : startsWell cs = true) : startsWell (snakeChars none cs) = true := by
  unfold startsWell at h
  split at h
  · rename_i c cs
    have hupper := isUpper_eq_false_of_isDigit h
    rw [snakeChars_cons, snakeChars_cons, hupper, toLower_eq_self hupper]
    exact h
  · rename_i c cs _
    have hbegins : beginsWord none cs = false := rfl
    have hne : c.toLower ≠ '_' := by
      rw [Ne, toLower_eq_underscore_iff]
      rintro rfl
      cases h
    rw [snakeChars_cons, hbegins, Bool.and_false, if_neg Bool.false_ne_true, List.nil_append,
      startsWell.eq_2 _ _ (by simp_all)]
    exact isAlpha_toLower h
  · cases h

/-- Only underscores are put in. -/
theorem filter_snakeChars : ∀ (cs : List Char) (previous : Option Char),
    (snakeChars previous cs).filter (· != '_') = (cs.map Char.toLower).filter (· != '_')
  | [], _ => rfl
  | c :: cs, previous => by
    have hput : ((if c.isUpper && beginsWord previous cs then ['_'] else []).filter (· != '_')) = [] := by
      split_ifs <;> rfl
    rw [snakeChars_cons, List.filter_append, hput, List.nil_append, List.map_cons, List.filter_cons, List.filter_cons,
      filter_snakeChars cs]

/-- Without capital letters nothing begins a word. -/
theorem snakeChars_eq_self : ∀ {cs : List Char} (previous : Option Char), (∀ c ∈ cs, c.isUpper = false) →
    snakeChars previous cs = cs
  | [], _, _ => rfl
  | c :: cs, previous, h => by
    obtain ⟨hc, hcs⟩ := List.forall_mem_cons.mp h
    rw [snakeChars_cons, hc, toLower_eq_self hc, snakeChars_eq_self (some c) hcs]
    rfl

/-- **An identifier stays one in lower case.** -/
theorem isWellFormed_snakeCase {name : String} (h : isWellFormed name = true) :
    isWellFormed (snakeCase name) = true := by
  have hchars : IsNameText (snakeCase name) := isNameText_snakeCase (isNameText_of_isWellFormed h)
  rw [isWellFormed_iff] at h ⊢
  obtain ⟨hstart, -, hsingle, hlast⟩ := h
  refine ⟨?_, hchars, ?_, ?_⟩
  · rw [snakeCase, String.toList_ofList]
    exact startsWell_snakeChars hstart
  · rw [snakeCase, String.toList_ofList]
    exact singleUnderscores_snakeChars none hsingle
  · rw [snakeCase, String.toList_ofList, getLast?_snakeChars]
    intro hc
    obtain ⟨c, hc, hlower⟩ := Option.map_eq_some_iff.mp hc
    exact hlast (hc.trans (congrArg some (toLower_eq_underscore_iff.mp hlower)))

/-- **Lower case keeps names.** An identifier stays one; of every name no capital letter is left, and the word without
its underscores is the one that the name has in lower case; and a name in lower case stays as it is. -/
theorem snakeCase_keeps (name : String) :
    (isWellFormed name = true → isWellFormed (snakeCase name) = true) ∧ Lacks Char.isUpper (snakeCase name) ∧
      (snakeCase name).toList.filter (· != '_') = (name.toList.map Char.toLower).filter (· != '_') ∧
      snakeCase (snakeCase name) = snakeCase name := by
  refine ⟨isWellFormed_snakeCase, lacks_isUpper_snakeCase name, ?_, ?_⟩
  · rw [snakeCase, String.toList_ofList]
    exact filter_snakeChars name.toList none
  · rw [snakeCase, snakeChars_eq_self none (lacks_isUpper_snakeCase name), String.ofList_toList]

/-- An acronym, digits and underscores that are there already. -/
theorem snakeCase_keeps_mixed :
    isWellFormed "_1APIKey2_XmlV3" = true ∧ isWellFormed (snakeCase "_1APIKey2_XmlV3") = true :=
  ⟨by decide, (snakeCase_keeps "_1APIKey2_XmlV3").1 (by decide)⟩

example : snakeCase "_1APIKey2_XmlV3" = "_1_api_key2_xml_v3" := by decide

end TypedSettings.Structs
