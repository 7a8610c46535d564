import TypedSettings.Proofs.Identifier.WellFormed
import TypedSettings.Proofs.Text.Letters

/-!
# Identifiers are words joined by underscores

A well-formed identifier is made of words of letters and digits with single underscores between them, and one more in
front of a digit. Without that one it is a core, which `trim` leaves as it is (`IsCore`).

* `isWellFormed_iff_exists_core`, `isCore_iff_exists_words`: what identifiers look like;
* `ofKeyBy_dollars`: a core is what is left of the key that has dollar signs for its underscores, and one more in front
  to keep its first letter as it is;
* `range_ofKey`: so the identifiers of keys are the well-formed ones, whatever upper-casing does outside of ASCII.
-/

namespace TypedSettings.Identifier

/-! ## Cores -/

/-- A text of letters, digits and single underscores that neither starts nor ends with one. -/
structure IsCore (cs : List Char) : Prop where
  ne_nil : cs ≠ []
  chars : ∀ c ∈ cs, isWordChar c = true ∨ c = '_'
  single : SingleUnderscores cs
  head : cs.head? ≠ some '_'
  last : cs.getLast? ≠ some '_'

theorem IsCore.trim_eq {cs : List Char} (h : IsCore cs) : trim ('_' :: cs) = cs := by
  have hfront : ('_' :: cs).dropWhile (· == '_') = cs := by
    rw [List.dropWhile_cons_of_pos rfl, List.dropWhile_eq_self_iff]
    intro hpos hc
    exact h.head (by rw [List.head?_eq_getElem?, List.getElem?_eq_getElem hpos, eq_of_beq hc])
  rw [Identifier.trim_eq, hfront, List.rdropWhile_eq_self_iff]
  intro hne hc
  exact h.last (by rw [List.getLast?_eq_some_getLast hne, eq_of_beq hc])

/-- **A well-formed identifier is a core**, with an underscore in front of a digit. -/
theorem isWellFormed_iff_exists_core {text : String} :
    isWellFormed text = true ↔ ∃ cs, IsCore cs ∧ text.toList = finish cs := by
  rw [isWellFormed_iff]
  constructor
  · rintro ⟨hstart, hchars, hsingle, hlast⟩
    unfold startsWell at hstart
    split at hstart
    · rename_i c cs heq
      rw [heq] at hchars hsingle hlast
      refine ⟨c :: cs, ⟨List.cons_ne_nil c cs, (List.forall_mem_cons.mp hchars).2, hsingle.tail, ?_, ?_⟩, ?_⟩
      · rintro ⟨⟩
        cases hstart
      · rwa [List.getLast?_cons_cons] at hlast
      · rw [finish, if_pos hstart]
        exact heq
    · rename_i c cs _ heq
      refine ⟨text.toList, ⟨?_, hchars, hsingle, ?_, hlast⟩, ?_⟩
      · rw [heq]
        exact List.cons_ne_nil c cs
      · rw [heq]
        rintro ⟨⟩
        cases hstart
      · rw [heq, finish, if_neg (Text.not_isDigit_of_isAlpha hstart)]
    · cases hstart
  · rintro ⟨cs, h, htext⟩
    rw [htext]
    refine ⟨startsWell_finish h.chars h.head, fun c hc => ?_, singleUnderscores_finish h.single, getLast?_finish h.last⟩
    rcases mem_finish hc with hc | hc | hc
    · exact Or.inl hc
    · exact Or.inr hc
    · exact h.chars c hc

/-! ## Words -/

/-- A word: letters and digits, one of them at least. -/
structure IsWord (word : List Char) : Prop where
  ne_nil : word ≠ []
  chars : ∀ c ∈ word, isWordChar c = true

/-- Words with single underscores between them. -/
def joined (words : List (List Char)) : List Char := ['_'].intercalate words

/-- A text is made of words: there is one at least, single underscores stand between them, and one more stands in front
where the first word starts with a digit. -/
structure IsMadeOf (text : String) (words : List (List Char)) : Prop where
  ne_nil : words ≠ []
  each : ∀ word ∈ words, IsWord word
  toList_eq : text.toList =
    (if (words.head?.bind List.head?).any Char.isDigit then ['_'] else []) ++ joined words

theorem joined_singleton (word : List Char) : joined [word] = word := List.intercalate_singleton

theorem joined_cons {words : List (List Char)} (hne : words ≠ []) (word : List Char) :
    joined (word :: words) = word ++ '_' :: joined words := by
  obtain ⟨next, words, rfl⟩ := List.exists_cons_of_ne_nil hne
  rw [joined, List.intercalate_cons_cons, List.append_assoc]
  rfl

theorem head?_joined {words : List (List Char)} (hwords : ∀ word ∈ words, IsWord word) :
    (joined words).head? = words.head?.bind List.head? := by
  cases words with
  | nil => rfl
  | cons word words =>
    have hhead : (word.head?).isSome := by
      rw [List.isSome_head?]
      exact (hwords word List.mem_cons_self).ne_nil
    rcases eq_or_ne words [] with rfl | hne
    · rw [joined_singleton]
      rfl
    · rw [joined_cons hne, List.head?_append, Option.or_of_isSome hhead]
      rfl

/-- One word is a core. -/
theorem IsWord.isCore {word : List Char} (h : IsWord word) : IsCore word where
  ne_nil := h.ne_nil
  chars c hc := Or.inl (h.chars c hc)
  single := (List.pairwise_of_forall_mem_list fun c hc _ _ e => absurd e (ne_underscore (h.chars c hc))).isChain
  head hc := ne_underscore (h.chars '_' (List.mem_of_mem_head? hc)) rfl
  last hc := ne_underscore (h.chars '_' (List.mem_of_getLast? hc)) rfl

/-- A word in front of a core, with an underscore between them, makes a core. -/
theorem IsWord.isCore_append {word cs : List Char} (h : IsWord word) (hcs : IsCore cs) :
    IsCore (word ++ '_' :: cs) where
  ne_nil := List.append_ne_nil_of_left_ne_nil h.ne_nil _
  chars c hc := by
    rcases List.mem_append.mp hc with hc | hc
    · exact h.isCore.chars c hc
    · rcases List.mem_cons.mp hc with hc | hc
      · exact Or.inr hc
      · exact hcs.chars c hc
  single := by
    refine List.isChain_append.mpr ⟨h.isCore.single, List.isChain_cons.mpr ⟨?_, hcs.single⟩, fun c hc d _ e => ?_⟩
    · rintro d hd - rfl
      exact hcs.head hd
    · exact absurd e (ne_underscore (h.chars c (List.mem_of_mem_getLast? hc)))
  head := by
    rw [List.head?_append_of_ne_nil _ h.ne_nil]
    exact h.isCore.head
  last := by
    rw [List.getLast?_append_of_ne_nil _ (List.cons_ne_nil _ _), List.getLast?_cons_of_ne_nil hcs.ne_nil]
    exact hcs.last

theorem isCore_joined : ∀ {words : List (List Char)}, words ≠ [] → (∀ word ∈ words, IsWord word) →
    IsCore (joined words)
  | [], hne, _ => absurd rfl hne
  | [word], _, hwords => by
    rw [joined_singleton]
    exact (hwords word List.mem_cons_self).isCore
  | word :: next :: words, _, hwords => by
    obtain ⟨hword, hrest⟩ := List.forall_mem_cons.mp hwords
    rw [joined_cons (List.cons_ne_nil _ _)]
    exact hword.isCore_append (isCore_joined (List.cons_ne_nil _ _) hrest)

/-- The front of a core is a word, with nothing behind it or an underscore and a core. -/
theorem IsCore.exists_word {cs : List Char} (h : IsCore cs) :
    ∃ word, IsWord word ∧ (cs = word ∨ ∃ rest, IsCore rest ∧ cs = word ++ '_' :: rest) := by
  have hword : IsWord (cs.takeWhile isWordChar) := by
    refine ⟨?_, fun c hc => List.mem_takeWhile_imp hc⟩
    obtain ⟨c, rest, rfl⟩ := List.exists_cons_of_ne_nil h.ne_nil
    have hc : isWordChar c = true := (h.chars c List.mem_cons_self).resolve_right fun e => h.head (by rw [e]; rfl)
    rw [List.takeWhile_cons_of_pos hc]
    exact List.cons_ne_nil c _
  have hsplit : cs.takeWhile isWordChar ++ cs.dropWhile isWordChar = cs := List.takeWhile_append_dropWhile
  refine ⟨cs.takeWhile isWordChar, hword, ?_⟩
  cases hrest : cs.dropWhile isWordChar with
  | nil =>
    rw [hrest, List.append_nil] at hsplit
    exact Or.inl hsplit.symm
  | cons c rest =>
    have hbehind : c :: rest <:+ cs := hrest ▸ List.dropWhile_suffix isWordChar
    -- what stops the word is no letter and no digit
    have hc : c = '_' := by
      have hstop := List.head?_dropWhile_not isWordChar cs
      rw [hrest] at hstop
      exact (h.chars c (hbehind.mem List.mem_cons_self)).resolve_left fun e => by simp [e] at hstop
    subst hc
    rw [hrest] at hsplit
    have hsingle : SingleUnderscores ('_' :: rest) := h.single.suffix hbehind
    have hlast : ('_' :: rest).getLast? ≠ some '_' := by
      obtain ⟨front, hfront⟩ := hbehind
      have hlast := h.last
      rwa [← hfront, List.getLast?_append_of_ne_nil _ (List.cons_ne_nil _ _)] at hlast
    have hne : rest ≠ [] := by
      rintro rfl
      exact hlast rfl
    refine Or.inr ⟨rest, ⟨hne, fun d hd => h.chars d (hbehind.mem (List.mem_cons_of_mem _ hd)), hsingle.tail, ?_, ?_⟩,
      hsplit.symm⟩
    · intro hhead
      exact (List.isChain_cons.mp hsingle).1 '_' hhead rfl rfl
    · rwa [List.getLast?_cons_of_ne_nil hne] at hlast

theorem IsCore.exists_words {cs : List Char} (h : IsCore cs) :
    ∃ words, words ≠ [] ∧ (∀ word ∈ words, IsWord word) ∧ cs = joined words := by
  obtain ⟨word, hword, heq | ⟨rest, hrest, heq⟩⟩ := h.exists_word
  · exact ⟨[word], List.cons_ne_nil _ _, List.forall_mem_singleton.mpr hword, heq.trans (joined_singleton word).symm⟩
  · have hshort : rest.length < cs.length := by
      rw [heq, List.length_append, List.length_cons]
      omega
    obtain ⟨words, hne, hwords, rfl⟩ := hrest.exists_words
    exact ⟨word :: words, List.cons_ne_nil _ _, List.forall_mem_cons.mpr ⟨hword, hwords⟩,
      heq.trans (joined_cons hne word).symm⟩
termination_by cs.length

/-- An underscore goes in front of a digit. -/
theorem finish_eq {cs : List Char} (hne : cs ≠ []) :
    finish cs = (if cs.head?.any Char.isDigit then ['_'] else []) ++ cs := by
  obtain ⟨c, cs, rfl⟩ := List.exists_cons_of_ne_nil hne
  rw [finish, List.head?_cons, Option.any_some]
  split_ifs
  · rfl
  · rfl

/-- **A well-formed identifier is made of words**, and what is made of words is one. -/
theorem isWellFormed_iff_exists_words {text : String} :
    isWellFormed text = true ↔ ∃ words, IsMadeOf text words := by
  rw [isWellFormed_iff_exists_core]
  constructor
  · rintro ⟨cs, h, htext⟩
    obtain ⟨words, hne, hwords, rfl⟩ := h.exists_words
    refine ⟨words, hne, hwords, ?_⟩
    rw [htext, finish_eq h.ne_nil, head?_joined hwords]
  · rintro ⟨words, hne, hwords, htext⟩
    have hcore := isCore_joined hne hwords
    refine ⟨joined words, hcore, ?_⟩
    rw [htext, finish_eq hcore.ne_nil, head?_joined hwords]

/-! ## The identifiers of keys -/

/-- What upper-casing does to ASCII characters: a small letter becomes the capital one, and every other stays. -/
structure RaisesAscii (upper : Char → List Char) : Prop where
  letter : ∀ c, c.isLower = true → upper c = [c.toUpper]
  other : ∀ c, c.toNat < 128 → c.isLower = false → upper c = [c]

/-- A word with its first character in upper case. -/
def capitalizedBy (upper : Char → List Char) : List Char → List Char
  | [] => []
  | c :: cs => upper c ++ cs

/-- The identifier of a raw key, for any upper-casing. -/
def ofKeyBy (upper : Char → List Char) (key : String) : Identifier :=
  ⟨String.ofList (finish (trim (squeeze false ((Key.words key.toList).flatMap (capitalizedBy upper)))))⟩

theorem raisesAscii_capital : RaisesAscii Text.capital where
  letter c hc := by rw [Text.capital, if_pos hc]
  other c hascii hc := by
    have hforeign : ∀ pair ∈ Text.foreignCapitals, 128 ≤ pair.1.toNat := by decide
    have hnone : Text.foreignCapitals.lookup c = none := by
      rw [List.lookup_eq_none_iff]
      intro pair hmem
      have := hforeign pair hmem
      rw [bne_iff_ne]
      rintro rfl
      omega
    rw [Text.capital, if_neg (ne_true_of_eq_false hc), hnone]
    rfl

theorem ofKeyBy_capital : ofKeyBy Text.capital = ofKey := by
  have hcapitalized : capitalizedBy Text.capital = Text.capitalized := by
    funext cs
    cases cs <;> rfl
  funext key
  rw [ofKeyBy, hcapitalized]
  rfl

/-- The character that stands for one of a core in a key: no key is split at it, and it has no other case. -/
def dollar (c : Char) : Char := if c = '_' then '$' else c

/-- The key of a core. -/
def dollars (cs : List Char) : String := String.ofList ('$' :: cs.map dollar)

theorem isWordChar_dollar {c : Char} (h : isWordChar c = true ∨ c = '_') :
    dollar c = '$' ∨ isWordChar (dollar c) = true := by
  unfold dollar
  split_ifs with hc
  · exact Or.inl rfl
  · exact Or.inr (h.resolve_right hc)

theorem squeeze_map_dollar : ∀ {cs : List Char} (after : Bool), (∀ c ∈ cs, isWordChar c = true ∨ c = '_') →
    SingleUnderscores cs → (after = true → cs.head? ≠ some '_') → squeeze after (cs.map dollar) = cs
  | [], _, _, _, _ => rfl
  | c :: cs, after, hchars, hsingle, hafter => by
    obtain ⟨hc, hrest⟩ := List.forall_mem_cons.mp hchars
    rw [List.map_cons]
    rcases hc with hc | rfl
    · have hbehind := squeeze_map_dollar false hrest hsingle.tail fun h => by cases h
      rw [dollar, if_neg (ne_underscore hc), squeeze, if_pos hc, hbehind]
    · have hbehind := squeeze_map_dollar true hrest hsingle.tail fun _ hhead =>
        (List.isChain_cons.mp hsingle).1 '_' hhead rfl rfl
      have hfirst : after = false := eq_false_of_ne_true fun h => hafter h rfl
      subst hfirst
      exact congrArg ('_' :: ·) hbehind

/-- What a key is split at is neither a letter nor a digit. -/
theorem not_isWordChar_of_isDelimiter {c : Char} (h : Key.isDelimiter c = true) : isWordChar c = false := by
  rw [Key.isDelimiter] at h
  simp only [Bool.or_eq_true, beq_iff_eq] at h
  rcases h with ((rfl | rfl) | rfl) | rfl
  all_goals decide

/-- A key of a core is one word. -/
theorem words_dollars {cs : List Char} (hchars : ∀ c ∈ cs, isWordChar c = true ∨ c = '_') :
    Key.words (dollars cs).toList = ['$' :: cs.map dollar] := by
  have hundelimited : ∀ c ∈ '$' :: cs.map dollar, Key.isDelimiter c = false := by
    intro c hc
    rcases List.mem_cons.mp hc with rfl | hc
    · decide
    · obtain ⟨d, hd, rfl⟩ := List.mem_map.mp hc
      rcases isWordChar_dollar (hchars d hd) with heq | hword
      · rw [heq]
        decide
      · exact eq_false_of_ne_true fun hd => ne_true_of_eq_false (not_isWordChar_of_isDelimiter hd) hword
  have hforeign : Key.isVendored ('$' :: cs.map dollar) = false := rfl
  rw [Key.words, dollars, String.toList_ofList, hforeign, if_neg Bool.false_ne_true,
    List.splitOnP_eq_singleton hundelimited]
  rfl

/-- **The key of a core gets the core for its identifier**, with an underscore in front of a digit. -/
theorem ofKeyBy_dollars {upper : Char → List Char} (hupper : RaisesAscii upper) {cs : List Char} (h : IsCore cs) :
    (ofKeyBy upper (dollars cs)).text = String.ofList (finish cs) := by
  have hdollar : upper '$' = ['$'] := hupper.other '$' (by decide) (by decide)
  have hsqueezed : squeeze false ('$' :: cs.map dollar) = '_' :: cs :=
    congrArg ('_' :: ·) (squeeze_map_dollar true h.chars h.single fun _ => h.head)
  rw [ofKeyBy, words_dollars h.chars, List.flatMap_singleton, capitalizedBy, hdollar, List.singleton_append, hsqueezed,
    h.trim_eq]

/-- The underscores of a name have dollar signs in the key that is found for it. -/
example : (ofKey (dollars "1a_b".toList)).text = "_1a_b" := by decide

/-- **The identifiers of keys are the well-formed ones**, and these are the texts that are made of words. Of upper-casing
only what it does to ASCII matters; the one that gives keys their names is such. -/
theorem range_ofKey {upper : Char → List Char} (hupper : RaisesAscii upper) (text : String) :
    (isWellFormed text = true ↔ ∃ key, (ofKeyBy upper key).text = text) ∧
      (isWellFormed text = true ↔ ∃ words, IsMadeOf text words) ∧ ofKeyBy Text.capital = ofKey := by
  refine ⟨⟨fun h => ?_, ?_⟩, isWellFormed_iff_exists_words, ofKeyBy_capital⟩
  · obtain ⟨cs, hcore, htext⟩ := isWellFormed_iff_exists_core.mp h
    refine ⟨dollars cs, ?_⟩
    rw [ofKeyBy_dollars hupper hcore, ← htext, String.ofList_toList]
  · rintro ⟨key, rfl⟩
    exact isWellFormed_finish _

theorem range_ofKey_digit : RaisesAscii Text.capital ∧
    (isWellFormed "_1a_b" = true ↔ ∃ key, (ofKeyBy Text.capital key).text = "_1a_b") ∧
      (isWellFormed "_1a_b" = true ↔ ∃ words, IsMadeOf "_1a_b" words) ∧ ofKeyBy Text.capital = ofKey :=
  ⟨raisesAscii_capital, range_ofKey raisesAscii_capital "_1a_b"⟩

end TypedSettings.Identifier
