import TypedSettings.Proofs.Except
import TypedSettings.Proofs.Json.Text
import TypedSettings.Proofs.Text.Letters

/-!
# The grammar of JSON strings

The grammar is a relation between a text behind an opening quote, the characters of the string, and what stands behind
its closing quote (`Chars`). A character stands for itself or is written as an escape (`Escape`), and there may be
several escapes for it.

The reader of strings reads what the grammar says and nothing else (`gives_readString_iff`), so a text begins with one
string at most (`Chars.unique`).
-/

namespace TypedSettings.Json

/-! ## The grammar -/

/-- What stands behind a backslash, the character that it stands for, and what stands behind it. -/
inductive Escape : List Char → Char → List Char → Prop
  | letter {a c : Char} {rest : List Char} : escaped? a = some c → Escape (a :: rest) c rest
  /-- Four hexadecimal digits write the code point of a character. -/
  | unit {a b d e c : Char} {rest : List Char} : hexUnit? a b d e = some c.toNat →
    Escape ('u' :: a :: b :: d :: e :: rest) c rest
  /-- Two units that make a pair write a code point beyond 16 bits. -/
  | pair {a b d e a' b' d' e' c : Char} {m n : Nat} {rest : List Char} : hexUnit? a b d e = some m →
    hexUnit? a' b' d' e' = some n → isLeading m = true → isTrailing n = true →
    c.toNat = (m - 0xD800) * 0x400 + (n - 0xDC00) + 0x10000 →
    Escape ('u' :: a :: b :: d :: e :: '\\' :: 'u' :: a' :: b' :: d' :: e' :: rest) c rest

/-- A text behind an opening quote, the characters of the string up to its closing quote, and what stands behind. -/
inductive Chars : List Char → List Char → List Char → Prop
  | close {rest : List Char} : Chars ('"' :: rest) [] rest
  | plain {c : Char} {text cs rest : List Char} : c ≠ '"' → c ≠ '\\' → ¬c.toNat < 0x20 → Chars text cs rest →
    Chars (c :: text) (c :: cs) rest
  | escape {c : Char} {text behind cs rest : List Char} : Escape text c behind → Chars behind cs rest →
    Chars ('\\' :: text) (c :: cs) rest

/-! ## What is read -/

variable {α : Type} {text rest cs : List Char} {c : Char} {s : String} {n : Nat}

theorem gives_of_eq {read : Except Fault (Taken α text)} {taken : Taken α text} (h : read = .ok taken) :
    Gives read taken.value taken.rest := ⟨taken.le, h⟩

/-- A reader gives one value and leaves one rest. -/
theorem Gives.unique {read : Except Fault (Taken α text)} {a b : α} {rest' : List Char} (h : Gives read a rest)
    (h' : Gives read b rest') : a = b ∧ rest = rest' := by
  obtain ⟨_, h⟩ := h
  obtain ⟨_, h'⟩ := h'
  cases h.symm.trans h'
  exact ⟨rfl, rfl⟩

theorem gives_readUnit_iff : Gives (readUnit text) n rest ↔
    ∃ a b d e, text = a :: b :: d :: e :: rest ∧ hexUnit? a b d e = some n := by
  constructor
  · rintro ⟨_, h⟩
    unfold readUnit at h
    split at h
    · split at h
      · cases h
        exact ⟨_, _, _, _, rfl, ‹_›⟩
      · cases h
    · cases h
  · rintro ⟨a, b, d, e, rfl, h⟩
    exact ⟨by simp only [List.length_cons]; omega, by simp only [readUnit, h]⟩

theorem hexValue?_lt {a : Char} {d : Nat} (h : hexValue? a = some d) : d < 16 := by
  have hle : ∀ {x y : Char}, x ≤ y → x.toNat ≤ y.toNat := fun h => h
  unfold hexValue? at h
  split_ifs at h with hdigit hlower hupper
  · cases h
    have hd : a.toNat ≤ 57 := (Text.isDigit_iff.mp hdigit).2
    exact Nat.lt_of_le_of_lt (Nat.sub_le_sub_right hd 48) (by decide)
  · cases h
    have hf : a.toNat ≤ 102 := hle hlower.2
    exact Nat.lt_of_le_of_lt (Nat.add_le_add_right (Nat.sub_le_sub_right hf 97) 10) (by decide)
  · cases h
    have hf : a.toNat ≤ 70 := hle hupper.2
    exact Nat.lt_of_le_of_lt (Nat.add_le_add_right (Nat.sub_le_sub_right hf 65) 10) (by decide)

/-- Four digits write a number of 16 bits. -/
theorem hexUnit?_lt {a b d e : Char} (h : hexUnit? a b d e = some n) : n < 0x10000 := by
  simp only [hexUnit?, Option.bind_eq_bind, Option.bind_eq_some_iff, Option.pure_def, Option.some.injEq] at h
  obtain ⟨w, hw, x, hx, y, hy, z, hz, rfl⟩ := h
  have hwlt := hexValue?_lt hw
  have hxlt := hexValue?_lt hx
  have hylt := hexValue?_lt hy
  have hzlt := hexValue?_lt hz
  omega

theorem isLeading_iff : isLeading n = true ↔ 0xD800 ≤ n ∧ n < 0xDC00 := by
  rw [isLeading, Bool.and_eq_true, decide_eq_true_iff, decide_eq_true_iff]

theorem isTrailing_iff : isTrailing n = true ↔ 0xDC00 ≤ n ∧ n < 0xE000 := by
  rw [isTrailing, Bool.and_eq_true, decide_eq_true_iff, decide_eq_true_iff]

theorem toNat_ofNat_of_isValidChar (h : n.isValidChar) : (Char.ofNat n).toNat = n := by
  rw [Char.ofNat, dif_pos h]
  rfl

/-- A character is no half of a pair. -/
theorem not_isHalf_toNat (c : Char) : ¬isLeading c.toNat = true ∧ ¬isTrailing c.toNat = true := by
  have hvalid : c.toNat.isValidChar := c.valid
  rw [isLeading_iff, isTrailing_iff]
  rcases hvalid with h | h <;> omega

/-- A unit that is no half of a pair is a code point. -/
theorem isValidChar_of_unit (hlt : n < 0x10000) (hleading : ¬isLeading n = true) (htrailing : ¬isTrailing n = true) :
    n.isValidChar := by
  rw [isLeading_iff] at hleading
  rw [isTrailing_iff] at htrailing
  by_cases hlow : n < 0xD800
  · exact Or.inl hlow
  · exact Or.inr ⟨by omega, by omega⟩

/-- A pair makes a code point. -/
theorem isValidChar_of_pair {m : Nat} (hleading : isLeading m = true) (htrailing : isTrailing n = true) :
    ((m - 0xD800) * 0x400 + (n - 0xDC00) + 0x10000).isValidChar := by
  rw [isLeading_iff] at hleading
  rw [isTrailing_iff] at htrailing
  exact Or.inr ⟨by omega, by omega⟩

/-- What is read behind a `u` is one unit or a pair. -/
theorem Gives.unitEscape (h : Gives (readUnitEscape text) c rest) : Escape ('u' :: text) c rest := by
  obtain ⟨_, h⟩ := h
  obtain ⟨first, hfirst, h⟩ := bind_eq_ok.mp h
  obtain ⟨a, b, d, e, htext, hunit⟩ := gives_readUnit_iff.mp (gives_of_eq hfirst)
  rw [htext]
  by_cases htrailing : isTrailing first.value = true
  · rw [if_pos htrailing] at h
    cases h
  rw [if_neg htrailing] at h
  by_cases hleading : isLeading first.value = true
  · rw [if_pos hleading] at h
    dsimp only at h
    split at h
    case h_3 more hmore =>
      obtain ⟨⟨n, behind, hle⟩, hsecond, h⟩ := bind_eq_ok.mp h
      obtain ⟨a', b', d', e', rfl, hunit'⟩ := gives_readUnit_iff.mp ⟨hle, hsecond⟩
      split_ifs at h with htrailing'
      simp only [pure, Except.pure, Except.ok.injEq, Taken.mk.injEq] at h
      obtain ⟨rfl, rfl⟩ := h
      rw [hmore]
      have hvalid := isValidChar_of_pair hleading htrailing'
      exact .pair hunit hunit' hleading htrailing' (toNat_ofNat_of_isValidChar hvalid)
    all_goals cases h
  · rw [if_neg hleading] at h
    cases h
    have hvalid := isValidChar_of_unit (hexUnit?_lt hunit) hleading htrailing
    exact .unit (hunit.trans (congrArg some (toNat_ofNat_of_isValidChar hvalid).symm))

/-- One unit and a pair are read behind a `u`. -/
theorem Escape.gives_readUnitEscape (h : Escape ('u' :: text) c rest) : Gives (readUnitEscape text) c rest := by
  cases h with
  | letter hletter => cases hletter
  | @unit a b d e _ _ hunit =>
    obtain ⟨hle, hread⟩ := gives_readUnit_iff.mpr ⟨a, b, d, e, rfl, hunit⟩
    obtain ⟨hleading, htrailing⟩ := not_isHalf_toNat c
    refine ⟨hle, bind_eq_ok.mpr ⟨_, hread, ?_⟩⟩
    rw [if_neg htrailing, if_neg hleading]
    dsimp only
    rw [pure, Char.ofNat_toNat]
    rfl
  | @pair a b d e a' b' d' e' _ m n _ hunit hunit' hleading htrailing' hc =>
    obtain ⟨hle, hread⟩ := gives_readUnit_iff.mpr ⟨a, b, d, e, rfl, hunit⟩
    obtain ⟨hle', hread'⟩ := gives_readUnit_iff.mpr ⟨a', b', d', e', rfl, hunit'⟩
    have htrailing : ¬isTrailing m = true := by
      rw [isLeading_iff] at hleading
      rw [isTrailing_iff]
      omega
    have hpair : Char.ofNat ((m - 0xD800) * 0x400 + (n - 0xDC00) + 0x10000) = c := by rw [← hc, Char.ofNat_toNat]
    refine ⟨by simp only [List.length_cons]; omega, bind_eq_ok.mpr ⟨_, hread, ?_⟩⟩
    rw [if_neg htrailing, if_pos hleading]
    dsimp only
    refine bind_eq_ok.mpr ⟨_, hread', ?_⟩
    rw [if_pos htrailing']
    simp only [hpair]
    rfl

/-- What stands behind a backslash is read as the escape that it is. -/
theorem gives_readEscape_iff : Gives (readEscape text) c rest ↔ Escape text c rest := by
  match text with
  | [] => exact ⟨fun ⟨_, h⟩ => (nomatch h), nofun⟩
  | a :: text =>
    by_cases ha : a = 'u'
    · subst ha
      constructor
      · rintro ⟨_, h⟩
        obtain ⟨taken, htaken, h⟩ := bind_eq_ok.mp h
        cases h
        exact (gives_of_eq htaken).unitEscape
      · intro h
        obtain ⟨hle, hread⟩ := h.gives_readUnitEscape
        exact ⟨Nat.le_succ_of_le hle, bind_eq_ok.mpr ⟨_, hread, rfl⟩⟩
    · constructor
      · rintro ⟨_, h⟩
        rw [readEscape.eq_3 _ _ ha] at h
        split at h
        · cases h
          exact .letter ‹_›
        · cases h
      · intro h
        cases h with
        | letter hletter => exact ⟨Nat.le_succ _, by rw [readEscape.eq_3 _ _ ha]; simp only [hletter]⟩
        | unit _ => exact absurd rfl ha
        | pair _ _ _ _ _ => exact absurd rfl ha

/-- The characters up to a closing quote are read as those that they write. -/
theorem gives_readChars_iff : Gives (readChars text) cs rest ↔ Chars text cs rest := by
  constructor
  · induction hlength : text.length using Nat.strong_induction_on generalizing text cs with
    | h length ih =>
      rintro ⟨_, h⟩
      match text with
      | [] => rw [readChars] at h; cases h
      | c :: text =>
        by_cases hquote : c = '"'
        · subst hquote
          rw [readChars] at h
          cases h
          exact .close
        by_cases hslash : c = '\\'
        · subst hslash
          rw [readChars] at h
          obtain ⟨escape, hescape, h⟩ := bind_eq_ok.mp h
          obtain ⟨more, hmore, h⟩ := bind_eq_ok.mp h
          cases h
          have hlt : escape.rest.length < length := hlength ▸ Nat.lt_succ_of_le escape.le
          exact .escape (gives_readEscape_iff.mp (gives_of_eq hescape)) (ih _ hlt rfl (gives_of_eq hmore))
        · rw [readChars.eq_4 _ _ hquote hslash] at h
          split_ifs at h with hcontrol
          obtain ⟨more, hmore, h⟩ := bind_eq_ok.mp h
          cases h
          exact .plain hquote hslash hcontrol (ih _ (hlength ▸ Nat.lt_succ_self _) rfl (gives_of_eq hmore))
  · intro h
    induction h with
    | close => exact ⟨Nat.le_succ _, readChars.eq_2 _⟩
    | plain hquote hslash hcontrol _ ih =>
      obtain ⟨hle, ih⟩ := ih
      refine ⟨Nat.le_succ_of_le hle, ?_⟩
      rw [readChars.eq_4 _ _ hquote hslash, if_neg hcontrol, ih]
      rfl
    | escape hescape _ ih =>
      obtain ⟨hle, ih⟩ := ih
      obtain ⟨hle', hescape⟩ := gives_readEscape_iff.mpr hescape
      refine ⟨(hle.trans hle').trans (Nat.le_succ _), ?_⟩
      simp only [readChars, hescape, bind, Except.bind, ih]
      rfl

/-- **A string is read as what it writes.** -/
theorem gives_readString_iff : Gives (readString text) s rest ↔ Chars text s.toList rest := by
  rw [← gives_readChars_iff]
  constructor
  · rintro ⟨_, h⟩
    obtain ⟨taken, htaken, h⟩ := bind_eq_ok.mp h
    cases h
    rw [String.toList_ofList]
    exact gives_of_eq htaken
  · rintro ⟨hle, h⟩
    refine ⟨hle, bind_eq_ok.mpr ⟨_, h, ?_⟩⟩
    simp only [Taken.map, String.ofList_toList]
    rfl

/-- **A text begins with one string at most.** -/
theorem Chars.unique {cs' rest' : List Char} (h : Chars text cs rest) (h' : Chars text cs' rest') :
    cs = cs' ∧ rest = rest' :=
  (gives_readChars_iff.mpr h).unique (gives_readChars_iff.mpr h')

/-- A written string is one of the texts of the string. -/
theorem chars_flatMap_writeChar (cs rest : List Char) : Chars (cs.flatMap writeChar ++ '"' :: rest) cs rest :=
  gives_readChars_iff.mp (readChars_flatMap cs rest)

end TypedSettings.Json
