import TypedSettings.Proofs.Identifier.Words
import TypedSettings.Proofs.Text.Lines

/-!
# What an identifier keeps of its key

A key outside the vendor namespaces is split at every delimiter, and the empty parts are left out; what is left are its
segments. A key lists its segments with delimiters between them (`Key.Lists`), and no others (`Key.segments_eq_iff`).

* `raisedBy_eq_flatMap`: the three ways that a key may go, split at dots, at delimiters or not at all, are one;
* `ofKeyBy_segments`: so the segments alone decide on the identifier, whatever upper-casing does;
* `spelled_ofKey`: of a key in ASCII, the identifier has all letters and digits, in their order.
-/

namespace TypedSettings

/-! ## Segments -/

namespace Key

/-- The parts of a key between delimiters, without the empty ones. -/
def segments (key : List Char) : List (List Char) := (key.splitOnP isDelimiter).filter (!·.isEmpty)

/-- A text begins with a delimiter, or ends at once. -/
def EndsWord (text : List Char) : Prop := ∀ c ∈ text.head?, isDelimiter c = true

/-- A key lists words: none of them is empty or has a delimiter, one delimiter at least stands between any two of them,
and any number in front of the first and behind the last. -/
inductive Lists : List (List Char) → List Char → Prop
  | none {gap : List Char} : (∀ c ∈ gap, isDelimiter c = true) → Lists [] gap
  | word (gap : List Char) {word : List Char} {words : List (List Char)} {rest : List Char} :
    (∀ c ∈ gap, isDelimiter c = true) → word ≠ [] → (∀ c ∈ word, isDelimiter c = false) → EndsWord rest →
    Lists words rest → Lists (word :: words) (gap ++ (word ++ rest))

theorem segments_nil : segments [] = [] := by
  rw [segments, List.splitOnP_nil]
  rfl

theorem segments_cons_delimiter {c : Char} (hc : isDelimiter c = true) (cs : List Char) :
    segments (c :: cs) = segments cs := by
  rw [segments, List.splitOnP_cons_eq_if_modifyHead, if_pos hc]
  rfl

theorem segments_append {gap : List Char} (hgap : ∀ c ∈ gap, isDelimiter c = true) (cs : List Char) :
    segments (gap ++ cs) = segments cs := by
  induction gap with
  | nil => rfl
  | cons c gap ih =>
    obtain ⟨hc, hgap⟩ := List.forall_mem_cons.mp hgap
    rw [List.cons_append, segments_cons_delimiter hc, ih hgap]

theorem segments_word_append {word rest : List Char} (hne : word ≠ []) (hword : ∀ c ∈ word, isDelimiter c = false)
    (hrest : EndsWord rest) : segments (word ++ rest) = word :: segments rest := by
  have hkeep : (!word.isEmpty) = true := by
    rw [Bool.not_eq_true', List.isEmpty_eq_false_iff]
    exact hne
  cases rest with
  | nil =>
    rw [segments_nil, List.append_nil, segments, List.splitOnP_eq_singleton hword]
    exact List.filter_cons_of_pos hkeep
  | cons c rest =>
    have hc : isDelimiter c = true := hrest c rfl
    rw [segments_cons_delimiter hc, segments, List.splitOnP_append_cons_of_forall_mem hword c hc]
    exact List.filter_cons_of_pos hkeep

theorem Lists.segments_eq {words : List (List Char)} {key : List Char} (h : Lists words key) :
    segments key = words := by
  induction h with
  | none hgap =>
    have hall := segments_append hgap []
    rwa [List.append_nil, segments_nil] at hall
  | word gap hgap hne hword hrest _ ih => rw [segments_append hgap, segments_word_append hne hword hrest, ih]

/-- A delimiter in front changes nothing. -/
theorem Lists.cons {c : Char} {words : List (List Char)} {cs : List Char} (hc : isDelimiter c = true)
    (h : Lists words cs) : Lists words (c :: cs) := by
  cases h with
  | none hgap => exact .none (List.forall_mem_cons.mpr ⟨hc, hgap⟩)
  | @word gap _ _ _ hgap hne hword hends hrest =>
    exact .word (c :: gap) (List.forall_mem_cons.mpr ⟨hc, hgap⟩) hne hword hends hrest

/-- Every key lists some words. -/
theorem exists_lists : ∀ key : List Char, ∃ words, Lists words key
  | [] => ⟨[], .none (List.forall_mem_nil _)⟩
  | c :: cs => by
    obtain ⟨words, h⟩ := exists_lists cs
    cases hc : isDelimiter c with
    | true => exact ⟨words, h.cons hc⟩
    | false =>
      by_cases hends : EndsWord cs
      · exact ⟨[c] :: words, .word [] (List.forall_mem_nil _) (List.cons_ne_nil c [])
          (List.forall_mem_singleton.mpr hc) hends h⟩
      · -- the word that begins behind the character goes on to it
        cases h with
        | none hgap => exact absurd (fun d hd => hgap d (List.mem_of_mem_head? hd)) hends
        | @word gap word words rest hgap hne hword hends' hrest =>
          cases gap with
          | nil => exact ⟨(c :: word) :: words, .word [] (List.forall_mem_nil _) (List.cons_ne_nil c word)
              (List.forall_mem_cons.mpr ⟨hc, hword⟩) hends' hrest⟩
          | cons d gap => exact absurd (fun e he => Option.some.inj he ▸ hgap d List.mem_cons_self) hends

/-- **The segments of a key are the words that it lists.** -/
theorem segments_eq_iff {words : List (List Char)} {key : List Char} : segments key = words ↔ Lists words key := by
  refine ⟨?_, Lists.segments_eq⟩
  rintro rfl
  obtain ⟨words, hwords⟩ := exists_lists key
  rw [hwords.segments_eq]
  exact hwords

/-- A key without delimiters is its own segment, if it is not empty. -/
theorem segments_of_undelimited {key : List Char} (h : ∀ c ∈ key, isDelimiter c = false) :
    segments key = [key].filter (!·.isEmpty) := by
  rw [segments, List.splitOnP_eq_singleton h]

theorem words_of_not_isVendored {key : List Char} (h : isVendored key = false) : words key = segments key := by
  rw [words, h, if_neg Bool.false_ne_true, segments]

end Key

/-! ## Three ways to one text -/

namespace Identifier

variable {upper : Char → List Char} {c : Char} {cs key : List Char}

/-- The text of a key with the first characters of its words in upper case, in the way that the key goes: a vendored key
is split at its dots, another one at its delimiters, and one that has none is not split. -/
def raisedBy (upper : Char → List Char) (key : List Char) : List Char :=
  if Key.isVendored key then ((key.splitOnP (· == '.')).filter (!·.isEmpty)).flatMap (capitalizedBy upper)
  else if key.any Key.isDelimiter then
    ((key.splitOnP Key.isDelimiter).filter (!·.isEmpty)).flatMap (capitalizedBy upper)
  else capitalizedBy upper key

/-- A key that is not split agrees with its segments. -/
theorem flatMap_segments_of_undelimited (h : ∀ c ∈ key, Key.isDelimiter c = false) :
    (Key.segments key).flatMap (capitalizedBy upper) = capitalizedBy upper key := by
  rw [Key.segments_of_undelimited h]
  cases key with
  | nil => rfl
  | cons c cs => exact List.flatMap_singleton _ _

/-- **All three ways lead to the words of the key**, with their first characters in upper case. -/
theorem raisedBy_eq_flatMap (upper : Char → List Char) (key : List Char) :
    raisedBy upper key = (Key.words key).flatMap (capitalizedBy upper) := by
  unfold raisedBy
  split_ifs with hvendored hdelimited
  · rw [Key.words, if_pos hvendored]
  · rw [Key.words, if_neg hvendored]
  · have hplain : ∀ c ∈ key, Key.isDelimiter c = false :=
      Text.forall_mem_of_any (eq_false_of_ne_true hdelimited)
    rw [Key.words_of_not_isVendored (eq_false_of_ne_true hvendored), flatMap_segments_of_undelimited hplain]

/-- **The segments of a key decide on its identifier**, outside of the vendor namespaces: which delimiters stand
between them, how many these are, and whether some lead or trail, does not matter, whatever upper-casing makes of a
character. -/
theorem ofKeyBy_segments (upper : Char → List Char) :
    (∀ key : String, (ofKeyBy upper key).text =
        String.ofList (finish (trim (squeeze false (raisedBy upper key.toList))))) ∧
      (∀ (words : List (List Char)) (key : List Char), Key.segments key = words ↔ Key.Lists words key) ∧
      (∀ key other : String, Key.isVendored key.toList = false → Key.isVendored other.toList = false →
        Key.segments key.toList = Key.segments other.toList → ofKeyBy upper key = ofKeyBy upper other) ∧
      (∀ (words : List (List Char)) (key : String), Key.isVendored key.toList = false → Key.Lists words key.toList →
        (ofKeyBy upper key).text =
          String.ofList (finish (trim (squeeze false (words.flatMap (capitalizedBy upper)))))) ∧
      (∀ key : List Char, (∀ c ∈ key, Key.isDelimiter c = false) →
        capitalizedBy upper key = (Key.segments key).flatMap (capitalizedBy upper)) ∧
      ofKeyBy Text.capital = ofKey := by
  refine ⟨fun key => ?_, fun _ _ => Key.segments_eq_iff, fun key other hkey hother hsame => ?_,
    fun words key hkey hlists => ?_, fun key hkey => (flatMap_segments_of_undelimited hkey).symm, ofKeyBy_capital⟩
  · rw [raisedBy_eq_flatMap, ofKeyBy]
  · rw [ofKeyBy, ofKeyBy, Key.words_of_not_isVendored hkey, Key.words_of_not_isVendored hother, hsame]
  · rw [ofKeyBy, Key.words_of_not_isVendored hkey, hlists.segments_eq]

/-- The first character of a segment may become two, and delimiters may stand anywhere. -/
theorem ofKeyBy_segments_expanded :
    Key.isVendored "ßa.b".toList = false ∧ Key.isVendored "-ßa _b-".toList = false ∧
      Key.segments "ßa.b".toList = Key.segments "-ßa _b-".toList ∧
      ofKeyBy Text.capital "ßa.b" = ofKeyBy Text.capital "-ßa _b-" := by
  have hkey : Key.isVendored "ßa.b".toList = false := by decide
  have hother : Key.isVendored "-ßa _b-".toList = false := by decide
  have hsame : Key.segments "ßa.b".toList = Key.segments "-ßa _b-".toList := by decide
  exact ⟨hkey, hother, hsame, (ofKeyBy_segments Text.capital).2.2.1 _ _ hkey hother hsame⟩

example : (ofKey "-ßa _b-").text = "SSaB" := by decide

/-! ## Letters and digits -/

/-- The letters and digits of a text, in lower case. -/
def spelled (cs : List Char) : List Char := (cs.filter isWordChar).map Char.toLower

theorem spelled_append (cs ds : List Char) : spelled (cs ++ ds) = spelled cs ++ spelled ds := by
  rw [spelled, List.filter_append, List.map_append]
  rfl

theorem spelled_eq_nil_iff : spelled cs = [] ↔ ∀ c ∈ cs, isWordChar c = false := by
  rw [spelled, List.map_eq_nil_iff, List.filter_eq_nil_iff]
  simp only [Bool.not_eq_true]

/-- What is neither a letter nor a digit may go. -/
theorem spelled_filter {p : Char → Bool} (hp : ∀ c, p c = true → isWordChar c = false) (cs : List Char) :
    spelled (cs.filter (!p ·)) = spelled cs := by
  rw [spelled, List.filter_filter]
  refine congrArg (List.map Char.toLower) (List.filter_congr fun c _ => ?_)
  cases hc : p c with
  | true => rw [hp c hc]; rfl
  | false => rw [Bool.not_false, Bool.and_true]

theorem filter_squeeze : ∀ (cs : List Char) (after : Bool),
    (squeeze after cs).filter isWordChar = cs.filter isWordChar
  | [], _ => rfl
  | c :: cs, after => by
    rw [squeeze]
    split_ifs with hc hafter
    · rw [List.filter_cons_of_pos hc, List.filter_cons_of_pos hc, filter_squeeze cs]
    · rw [List.filter_cons_of_neg hc, filter_squeeze cs]
    · rw [List.filter_cons_of_neg hc, List.filter_cons_of_neg (by decide), filter_squeeze cs]

theorem filter_dropWhile_underscore : ∀ cs : List Char,
    (cs.dropWhile (· == '_')).filter isWordChar = cs.filter isWordChar
  | [] => rfl
  | c :: cs => by
    by_cases hc : c = '_'
    · rw [List.dropWhile_cons_of_pos (by simp [hc]), filter_dropWhile_underscore cs, hc,
        List.filter_cons_of_neg (by decide)]
    · rw [List.dropWhile_cons_of_neg (by simp [hc])]

theorem filter_trim (cs : List Char) : (trim cs).filter isWordChar = cs.filter isWordChar := by
  rw [trim, List.filter_reverse, filter_dropWhile_underscore, List.filter_reverse, filter_dropWhile_underscore,
    List.reverse_reverse]

theorem spelled_finish (hne : cs ≠ []) : spelled (finish cs) = spelled cs := by
  rw [finish_eq hne, spelled_append]
  split_ifs
  · rfl
  · rfl

/-- A capital letter is spelled like the small one. -/
theorem spelled_toUpper (hc : c.isLower = true) : spelled [c.toUpper] = spelled [c] := by
  obtain ⟨h₁, h₂⟩ := Text.isLower_iff.mp hc
  rw [← Char.ofNat_toNat c]
  generalize c.toNat = n at h₁ h₂
  interval_cases n <;> decide

/-- A word is spelled alike with its first character in upper case, if that character is in ASCII. -/
theorem spelled_capitalizedBy (hupper : RaisesAscii upper) (hascii : ∀ c ∈ cs, c.toNat < 128) :
    spelled (capitalizedBy upper cs) = spelled cs := by
  cases cs with
  | nil => rfl
  | cons c cs =>
    rw [capitalizedBy, spelled_append, ← List.singleton_append (x := c), spelled_append]
    cases hc : c.isLower with
    | true => rw [hupper.letter c hc, spelled_toUpper hc]
    | false => rw [hupper.other c (hascii c List.mem_cons_self) hc]

/-- Words in ASCII are spelled alike with their first characters in upper case. -/
theorem spelled_flatMap_capitalizedBy (hupper : RaisesAscii upper) : ∀ {words : List (List Char)},
    (∀ word ∈ words, ∀ c ∈ word, c.toNat < 128) → spelled (words.flatMap (capitalizedBy upper)) = spelled words.flatten
  | [], _ => rfl
  | word :: words, hascii => by
    obtain ⟨hword, hrest⟩ := List.forall_mem_cons.mp hascii
    rw [List.flatMap_cons, List.flatten_cons, spelled_append, spelled_append, spelled_capitalizedBy hupper hword,
      spelled_flatMap_capitalizedBy hupper hrest]

/-- The parts of a split text are the text without what it is split at. -/
theorem flatten_splitOnP (p : Char → Bool) : ∀ cs : List Char, (cs.splitOnP p).flatten = cs.filter (!p ·)
  | [] => by rw [List.splitOnP_nil]; rfl
  | c :: cs => by
    rw [List.splitOnP_cons_eq_if_modifyHead]
    split_ifs with hc
    · rw [List.flatten_cons, List.nil_append, flatten_splitOnP p cs, List.filter_cons_of_neg (by simp [hc])]
    · obtain ⟨first, rest, heq⟩ := List.exists_cons_of_ne_nil (List.splitOnP_ne_nil p cs)
      have ih := flatten_splitOnP p cs
      rw [heq, List.flatten_cons] at ih
      rw [heq, List.modifyHead_cons, List.flatten_cons, List.cons_append, ih, List.filter_cons_of_pos (by simp [hc])]

/-- The words of a key have all its letters and digits. -/
theorem exists_flatten_words (key : List Char) : ∃ p : Char → Bool,
    (Key.words key).flatten = key.filter (!p ·) ∧ ∀ c, p c = true → isWordChar c = false := by
  rw [Key.words]
  split_ifs
  · refine ⟨(· == '.'), by rw [List.flatten_filter_not_isEmpty, flatten_splitOnP], fun c hc => ?_⟩
    rw [eq_of_beq hc]
    decide
  · refine ⟨Key.isDelimiter, by rw [List.flatten_filter_not_isEmpty, flatten_splitOnP], fun c hc => ?_⟩
    exact not_isWordChar_of_isDelimiter hc

/-- With their first characters in upper case, the words of a key in ASCII are spelled like the key. -/
theorem spelled_flatMap_words (hupper : RaisesAscii upper) (hascii : ∀ c ∈ key, c.toNat < 128) :
    spelled ((Key.words key).flatMap (capitalizedBy upper)) = spelled key := by
  obtain ⟨p, hflatten, hp⟩ := exists_flatten_words key
  have hwords : ∀ word ∈ Key.words key, ∀ c ∈ word, c.toNat < 128 := by
    intro word hword c hc
    have hmem : c ∈ (Key.words key).flatten := List.mem_flatten.mpr ⟨word, hword, hc⟩
    rw [hflatten] at hmem
    exact hascii c (List.mem_filter.mp hmem).1
  calc spelled ((Key.words key).flatMap (capitalizedBy upper))
      = spelled (Key.words key).flatten := spelled_flatMap_capitalizedBy hupper hwords
    _ = spelled (key.filter (!p ·)) := by rw [hflatten]
    _ = spelled key := spelled_filter hp key

/-- Something is left between the underscores exactly if something is spelled. -/
theorem trim_squeeze_eq_nil_iff : trim (squeeze false cs) = [] ↔ spelled (trim (squeeze false cs)) = [] := by
  refine ⟨fun h => by rw [h]; rfl, fun h => ?_⟩
  by_contra hne
  obtain ⟨c, rest, heq⟩ := List.exists_cons_of_ne_nil hne
  have hc : c ∈ trim (squeeze false cs) := heq ▸ List.mem_cons_self
  rcases mem_squeeze ((trim_isInfix _).mem hc) with hword | rfl
  · exact ne_true_of_eq_false (spelled_eq_nil_iff.mp h c hc) hword
  · exact head?_trim _ (by rw [heq]; rfl)

/-- **The identifier of a key in ASCII is spelled like the key**: it has the letters and digits of the key and no
others, in their order, and only their case may differ. A key without any gets the placeholder. -/
theorem spelled_ofKey (hupper : RaisesAscii upper) (key : String) (hascii : ∀ c ∈ key.toList, c.toNat < 128) :
    ((∃ c ∈ key.toList, isWordChar c = true) → spelled (ofKeyBy upper key).text.toList = spelled key.toList) ∧
      ((∀ c ∈ key.toList, isWordChar c = false) → (ofKeyBy upper key).text = "Property") ∧
      ofKeyBy Text.capital = ofKey := by
  have hcore : spelled (trim (squeeze false ((Key.words key.toList).flatMap (capitalizedBy upper)))) =
      spelled key.toList := by
    rw [spelled, filter_trim, filter_squeeze]
    exact spelled_flatMap_words hupper hascii
  refine ⟨fun ⟨c, hmem, hc⟩ => ?_, fun hnone => ?_, ofKeyBy_capital⟩
  · have hne : trim (squeeze false ((Key.words key.toList).flatMap (capitalizedBy upper))) ≠ [] := by
      rw [Ne, trim_squeeze_eq_nil_iff, hcore]
      exact fun hnil => ne_true_of_eq_false (spelled_eq_nil_iff.mp hnil c hmem) hc
    rw [ofKeyBy, String.toList_ofList, spelled_finish hne, hcore]
  · have hnil : trim (squeeze false ((Key.words key.toList).flatMap (capitalizedBy upper))) = [] := by
      rw [trim_squeeze_eq_nil_iff, hcore]
      exact spelled_eq_nil_iff.mpr hnone
    rw [ofKeyBy, hnil]
    rfl

/-- A vendored key keeps the underscore of its hyphen, and loses its symbols; of symbols alone nothing is left. -/
theorem spelled_ofKey_symbols :
    spelled (ofKeyBy Text.capital "System.net-http $2x").text.toList = "systemnethttp2x".toList ∧
      (ofKeyBy Text.capital "-$. ").text = "Property" := by
  have hascii : ∀ c ∈ "System.net-http $2x".toList, c.toNat < 128 := by simp
  have hascii' : ∀ c ∈ "-$. ".toList, c.toNat < 128 := by simp
  have hnone : ∀ c ∈ "-$. ".toList, isWordChar c = false := Text.forall_mem_of_any (by decide)
  have hvendored := (spelled_ofKey raisesAscii_capital "System.net-http $2x" hascii).1 ⟨'2', by decide⟩
  exact ⟨hvendored.trans (by decide), (spelled_ofKey raisesAscii_capital "-$. " hascii').2.1 hnone⟩

example : (ofKey "System.net-http $2x").text = "SystemNet_http_2x" := by decide

end Identifier

end TypedSettings
