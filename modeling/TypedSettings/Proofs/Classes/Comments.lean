import TypedSettings.Classes.Source
import TypedSettings.Proofs.Classes.Literal

/-!
# Documentation comments read back

The rules of XML for character data, as a relation (`IsDataOf`): each part of it denotes one character, an entity the
mark that it names and every other character itself, as long as it begins neither an entity nor a tag.

* `IsDataOf.resolved_eq`: replacing the entities from left to right gives the value of character data, which has no
  other;
* `IsDataOf.existsUnique_entity`: wherever an ampersand stands in it, just one entity begins;
* `shownSummary?_commentLine`: the comment of an address is one element, which shows the address;
* `summaryText_isData`: a text stands in a comment as character data of the text, with blanks for control characters.
-/

namespace TypedSettings.Classes

open Text

variable {c : Char} {cs part value text more before behind : List Char}

/-! ## Character data -/

/-- The entities, each behind the mark that it names. -/
def entities : List (Char × List Char) :=
  [('&', "&amp;".toList), ('<', "&lt;".toList), ('>', "&gt;".toList), ('"', "&quot;".toList)]

/-- Whether a character begins an entity or a tag. -/
def beginsMarkup (c : Char) : Bool := c == '&' || c == '<'

/-- A part of character data denotes a character. -/
inductive Denotes : Char → List Char → Prop
  /-- An entity denotes the mark that it names. -/
  | entity {c : Char} {part : List Char} : (c, part) ∈ entities → Denotes c part
  /-- A character that begins neither an entity nor a tag denotes itself. -/
  | plain {c : Char} : beginsMarkup c = false → Denotes c [c]

/-- A text is character data of a value. -/
inductive IsDataOf : List Char → List Char → Prop
  | nil : IsDataOf [] []
  | cons {c : Char} {part value text : List Char} : Denotes c part → IsDataOf value text →
      IsDataOf (c :: value) (part ++ text)

/-- A text with its entities replaced by their marks, from left to right. -/
def resolved : List Char → List Char
  | '&' :: 'a' :: 'm' :: 'p' :: ';' :: cs => '&' :: resolved cs
  | '&' :: 'l' :: 't' :: ';' :: cs => '<' :: resolved cs
  | '&' :: 'g' :: 't' :: ';' :: cs => '>' :: resolved cs
  | '&' :: 'q' :: 'u' :: 'o' :: 't' :: ';' :: cs => '"' :: resolved cs
  | c :: cs => c :: resolved cs
  | [] => []

theorem IsDataOf.append {value' : List Char} (h : IsDataOf value text) (h' : IsDataOf value' more) :
    IsDataOf (value ++ value') (text ++ more) := by
  induction h with
  | nil => exact h'
  | cons hpart _ ih =>
    rw [List.append_assoc]
    exact .cons hpart ih

/-- What begins no entity and no tag is character data of itself. -/
theorem isDataOf_self : ∀ {cs : List Char}, (∀ c ∈ cs, beginsMarkup c = false) → IsDataOf cs cs
  | [], _ => .nil
  | c :: cs, h => by
    obtain ⟨hc, hcs⟩ := List.forall_mem_cons.mp h
    exact .cons (.plain hc) (isDataOf_self hcs)

theorem ne_ampersand (hc : beginsMarkup c = false) : c ≠ '&' := by
  rintro rfl
  cases hc

theorem resolved_cons (hc : c ≠ '&') (cs : List Char) : resolved (c :: cs) = c :: resolved cs := by
  simp [resolved, hc]

theorem mem_entities_iff : (c, part) ∈ entities ↔
    c = '&' ∧ part = "&amp;".toList ∨ c = '<' ∧ part = "&lt;".toList ∨ c = '>' ∧ part = "&gt;".toList ∨
      c = '"' ∧ part = "&quot;".toList := by
  simp only [entities, List.mem_cons, Prod.mk.injEq, List.not_mem_nil, or_false]

/-- What a part denotes is what it is replaced by, whatever stands behind it. -/
theorem Denotes.resolved_append (h : Denotes c part) (cs : List Char) :
    resolved (part ++ cs) = c :: resolved cs := by
  cases h with
  | entity hmem =>
    rcases mem_entities_iff.mp hmem with ⟨rfl, rfl⟩ | ⟨rfl, rfl⟩ | ⟨rfl, rfl⟩ | ⟨rfl, rfl⟩
    all_goals rfl
  | plain hc => exact resolved_cons (ne_ampersand hc) cs

/-- **Replacing the entities from left to right gives the value**, so that no text is character data of two. -/
theorem IsDataOf.resolved_eq (h : IsDataOf value text) : resolved text = value := by
  induction h with
  | nil => rfl
  | cons hpart _ ih => rw [hpart.resolved_append, ih]

/-! ## Ampersands -/

/-- An ampersand in a part stands at its front, and the part is an entity. -/
theorem Denotes.of_ampersand (h : Denotes c (before ++ '&' :: behind)) :
    before = [] ∧ (c, '&' :: behind) ∈ entities := by
  generalize hpart : before ++ '&' :: behind = part at h
  cases h with
  | entity hmem =>
    have hinside : ∀ pair ∈ entities, '&' ∉ pair.2.tail := by decide
    cases before with
    | nil =>
      rw [← hpart] at hmem
      exact ⟨rfl, hmem⟩
    | cons d before =>
      have htail := hinside _ hmem
      simp [← hpart] at htail
  | plain hc =>
    have hmem : '&' ∈ [c] := hpart ▸ List.mem_append_right before List.mem_cons_self
    exact absurd (List.mem_singleton.mp hmem).symm (ne_ampersand hc)

/-- Where an ampersand stands in character data, an entity begins. -/
theorem IsDataOf.exists_entity (h : IsDataOf value text) : ∀ {before : List Char}, text = before ++ '&' :: behind →
    ∃ pair ∈ entities, pair.2 <+: '&' :: behind := by
  induction h with
  | nil => simp
  | @cons c part value text hpart _ ih =>
    intro before htext
    rcases List.append_eq_append_iff.mp htext with ⟨rest, -, hrest⟩ | ⟨rest, hfront, hrest⟩
    · exact ih hrest
    · cases rest with
      | nil =>
        have hbehind : text = [] ++ '&' :: behind := hrest.symm
        exact ih hbehind
      | cons d rest =>
        -- the ampersand is inside the part, so that the part is the entity
        obtain ⟨rfl, rfl⟩ := List.cons.inj hrest
        rw [hfront] at hpart
        exact ⟨_, hpart.of_ampersand.2, text, rfl⟩

/-- No entity begins another one. -/
theorem entity_unique {first second : Char × List Char} (h : first ∈ entities) (h' : second ∈ entities)
    (hfirst : first.2 <+: text) (hsecond : second.2 <+: text) : first = second := by
  have hapart : ∀ pair ∈ entities, ∀ other ∈ entities, pair.2 <+: other.2 → pair = other := by decide
  rcases List.prefix_or_prefix_of_prefix hfirst hsecond with hbegins | hbegins
  · exact hapart _ h _ h' hbegins
  · exact (hapart _ h' _ h hbegins).symm

/-- **Wherever an ampersand stands in character data, just one entity begins.** -/
theorem IsDataOf.existsUnique_entity (h : IsDataOf value text) (htext : text = before ++ '&' :: behind) :
    ∃! pair, pair ∈ entities ∧ pair.2 <+: '&' :: behind := by
  obtain ⟨pair, hmem, hbegins⟩ := h.exists_entity htext
  exact ⟨pair, ⟨hmem, hbegins⟩, fun other hother => entity_unique hother.1 hmem hother.2 hbegins⟩

/-! ## Texts in comments -/

/-- A character as a comment shows it: a blank for a control character. -/
def blanked (c : Char) : Char := if isControl c then ' ' else c

theorem denotes_summaryChar (c : Char) : Denotes (blanked c) (summaryChar c) := by
  unfold summaryChar
  split_ifs with hand hless hgreater hquote hcontrol
  · rw [eq_of_beq hand]
    exact .entity (by decide)
  · rw [eq_of_beq hless]
    exact .entity (by decide)
  · rw [eq_of_beq hgreater]
    exact .entity (by decide)
  · rw [eq_of_beq hquote]
    exact .entity (by decide)
  · rw [blanked, if_pos hcontrol]
    exact .plain rfl
  · rw [blanked, if_neg hcontrol]
    exact .plain (by simp [beginsMarkup, hand, hless])

theorem isDataOf_flatMap_summaryChar : ∀ cs : List Char, IsDataOf (cs.map blanked) (cs.flatMap summaryChar)
  | [] => .nil
  | c :: cs => .cons (denotes_summaryChar c) (isDataOf_flatMap_summaryChar cs)

/-- **A text stands in a comment as character data of the text**, with blanks for its control characters. -/
theorem isDataOf_summaryText (s : String) : IsDataOf (s.toList.map blanked) (summaryText s).toList := by
  rw [summaryText, String.toList_ofList]
  exact isDataOf_flatMap_summaryChar s.toList

/-- Whether a character begins or ends a tag, or ends a quote. -/
def isTagMark (c : Char) : Bool := c == '<' || c == '>' || c == '"'

theorem forall_mem_summaryChar_isTagMark (c : Char) : ∀ d ∈ summaryChar c, isTagMark d = false := by
  unfold summaryChar
  split_ifs with hand hless hgreater hquote hcontrol
  any_goals exact forall_mem_of_any rfl
  · exact List.forall_mem_singleton.mpr (by simp [isTagMark, hless, hgreater, hquote])

/-- In a comment a text has none of the marks of tags and quotes. -/
theorem lacks_isTagMark_summaryText (s : String) : Lacks isTagMark (summaryText s) := by
  intro c hc
  obtain ⟨d, -, hd⟩ := mem_summaryText.mp hc
  exact forall_mem_summaryChar_isTagMark d c hd

/-- A text without control characters is shown as it is. -/
theorem map_blanked_eq_self {s : String} (h : Lacks isControl s) : s.toList.map blanked = s.toList := by
  have hself : ∀ c ∈ s.toList, blanked c = id c := by
    intro c hc
    rw [blanked, h c hc, if_neg Bool.false_ne_true, id]
  rw [List.map_congr_left hself, List.map_id]

/-! ## The comment of an address -/

/-- What a comment shows: the text of the one element that it is, with its entities replaced. -/
def shownSummary? (comment : List Char) : Option (List Char) :=
  ("/// <summary>".toList.isPrefixOf? comment).bind fun inside =>
    if inside.dropWhile (· != '<') = "</summary>".toList then some (resolved (inside.takeWhile (· != '<'))) else none

theorem shownSummary?_eq (h : IsDataOf value text) (htext : '<' ∉ text) :
    shownSummary? ("/// <summary>".toList ++ (text ++ "</summary>".toList)) = some value := by
  have hplain : ∀ c ∈ text, (c != '<') = true := by
    intro c hc
    rw [bne_iff_ne]
    rintro rfl
    exact htext hc
  rw [shownSummary?, List.isPrefixOf?_eq_some_iff_append_eq.mpr rfl, Option.bind_some,
    List.dropWhile_append_of_pos hplain, List.takeWhile_append_of_pos hplain]
  simp [h.resolved_eq]

/-- **The comment of an address shows the address**, with blanks for the control characters in it. -/
theorem shownSummary?_commentLine (depth : Nat) (address : Address) :
    shownSummary? (commentLine depth address).text.toList =
      some ("Configuration key: \"".toList ++ (address.text.toList.map blanked ++ ['"'])) := by
  have hlabel : IsDataOf "Configuration key: \"".toList _ := isDataOf_self (forall_mem_of_any rfl)
  have hquote : IsDataOf ['"'] _ := isDataOf_self (forall_mem_of_any rfl)
  have hdata := hlabel.append ((isDataOf_summaryText address.text).append hquote)
  have hless : '<' ∉ (summaryText address.text).toList := fun h => by cases lacks_isTagMark_summaryText _ _ h
  have hline : (commentLine depth address).text.toList = "/// <summary>".toList ++
      ("Configuration key: \"".toList ++ ((summaryText address.text).toList ++ ['"']) ++ "</summary>".toList) := by
    simp [commentLine]
  rw [hline]
  exact shownSummary?_eq hdata (by simp [hless])

theorem lacks_endsLine_commentLine (depth : Nat) {address : Address} (h : Lacks isSeparator address.text) :
    Lacks endsLine (commentLine depth address).text :=
  ((lacks_ofList (by decide)).append (lacks_summaryText_iff.mpr h)).append (lacks_ofList (by decide))

/-- **A text stands in a comment as well-formed character data of itself**, with blanks for its control characters. No
tag begins or ends in it and no quote, just one entity begins at each of its ampersands, and replacing the entities from
left to right, or in any other way that the rules of character data allow, gives the text back. Hence a comment on one
line shows the address that it is for, entities in the keys included. -/
theorem summaryText_isData :
    (∀ s : String,
      Lacks isTagMark (summaryText s) ∧
      (∀ before behind, (summaryText s).toList = before ++ '&' :: behind →
        ∃! pair, pair ∈ entities ∧ pair.2 <+: '&' :: behind) ∧
      resolved (summaryText s).toList = s.toList.map blanked ∧
      (∀ value, IsDataOf value (summaryText s).toList ↔ value = s.toList.map blanked) ∧
      (Lacks isControl s → resolved (summaryText s).toList = s.toList)) ∧
    ∀ (depth : Nat) (address : Address), Lacks isSeparator address.text →
      Lacks endsLine (commentLine depth address).text ∧
        shownSummary? (commentLine depth address).text.toList =
          some ("Configuration key: \"".toList ++ (address.text.toList.map blanked ++ ['"'])) := by
  refine ⟨fun s => ?_, fun depth address h =>
    ⟨lacks_endsLine_commentLine depth h, shownSummary?_commentLine depth address⟩⟩
  have hdata := isDataOf_summaryText s
  refine ⟨lacks_isTagMark_summaryText s, fun _ _ => hdata.existsUnique_entity, hdata.resolved_eq, fun value => ?_,
    fun h => ?_⟩
  · constructor
    · intro hvalue
      rw [← hvalue.resolved_eq, hdata.resolved_eq]
    · rintro rfl
      exact hdata
  · rw [hdata.resolved_eq, map_blanked_eq_self h]

/-- A key that spells an entity is shown with it, and a tab in front of it as a blank. -/
theorem summaryText_isData_nested :
    Lacks isTagMark (summaryText "&lt;") ∧
      ((summaryText "&lt;").toList = [] ++ '&' :: "amp;lt;".toList ∧
        ∃! pair, pair ∈ entities ∧ pair.2 <+: '&' :: "amp;lt;".toList) ∧
      (Lacks isControl "&lt;" ∧ resolved (summaryText "&lt;").toList = "&lt;".toList) ∧
      Lacks isSeparator (Address.text ⟨["a", "\t&lt;"]⟩) ∧
        Lacks endsLine (commentLine 1 ⟨["a", "\t&lt;"]⟩).text ∧
          shownSummary? (commentLine 1 ⟨["a", "\t&lt;"]⟩).text.toList =
            some "Configuration key: \"a: &lt;\"".toList := by
  have htext : (summaryText "&lt;").toList = [] ++ '&' :: "amp;lt;".toList := by decide
  have hlacks : Lacks isControl "&lt;" := by decide
  have hseparator : Lacks isSeparator (Address.text ⟨["a", "\t&lt;"]⟩) := by decide
  obtain ⟨hmarks, hampersand, -, -, hresolved⟩ := summaryText_isData.1 "&lt;"
  obtain ⟨hline, hshown⟩ := summaryText_isData.2 1 ⟨["a", "\t&lt;"]⟩ hseparator
  exact ⟨hmarks, ⟨htext, hampersand _ _ htext⟩, ⟨hlacks, hresolved hlacks⟩, hseparator, hline,
    hshown.trans (by decide)⟩

end TypedSettings.Classes
