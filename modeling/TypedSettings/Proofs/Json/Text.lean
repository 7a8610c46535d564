import TypedSettings.Json.Text
import TypedSettings.Proofs.Text.Quoted

/-!
# Written strings read back

A string that is written is read back, whatever stands behind it (`readString_writeString`): each of its characters is
(`readChars_writeChar`). So a written string tells the string, and where it ends (`writeString_append_inj`).
-/

namespace TypedSettings.Json

open Text

/-- A reader gives a value and leaves a rest. -/
def Gives {α : Type} {text : List Char} (read : Except Fault (Taken α text)) (value : α) (rest : List Char) : Prop :=
  ∃ h, read = .ok ⟨value, rest, h⟩

section Characters

variable {c : Char} {cs escape text rest : List Char}

/-- Four digits are read as the number that they write. -/
theorem readUnit_hexQuad {n : Nat} (h : n < 65536) (text : List Char) :
    Gives (readUnit (hexQuad n ++ text)) n text := by
  have hdigit : ∀ n, hexValue? (n % 16).digitChar = some (n % 16) :=
    fun n => hexValue?_digitChar (Nat.mod_lt n (by decide))
  have hvalue : ((n / 4096 % 16 * 16 + n / 256 % 16) * 16 + n / 16 % 16) * 16 + n % 16 = n := by omega
  have hunit : hexUnit? (n / 4096 % 16).digitChar (n / 256 % 16).digitChar (n / 16 % 16).digitChar (n % 16).digitChar =
      some n := by
    simp only [hexUnit?, hdigit, Option.bind_eq_bind, Option.bind_some, hvalue]
    rfl
  refine ⟨by simp [hexQuad]; omega, ?_⟩
  simp only [hexQuad, List.cons_append, List.nil_append, readUnit, hunit]

/-- A control character is read from its four digits. -/
theorem readEscape_hexQuad (h : c.toNat < 0x20) (text : List Char) :
    Gives (readEscape ('u' :: (hexQuad c.toNat ++ text))) c text := by
  obtain ⟨hle, hread⟩ := readUnit_hexQuad (show c.toNat < 65536 by omega) text
  have htrailing : isTrailing c.toNat = false := by simp [isTrailing]; omega
  have hleading : isLeading c.toNat = false := by simp [isLeading]; omega
  refine ⟨Nat.le_succ_of_le hle, ?_⟩
  simp only [readEscape, readUnitEscape, hread, bind, Except.bind, htrailing, hleading, Bool.false_eq_true, if_false]
  rw [pure, Char.ofNat_toNat]
  rfl

/-- A character is written as it is, or as an escape that is read as the character. -/
theorem writeChar_cases (c : Char) : (writeChar c = [c] ∧ c ≠ '"' ∧ c ≠ '\\' ∧ ¬c.toNat < 0x20) ∨
    ∃ escape, writeChar c = '\\' :: escape ∧ ∀ text, Gives (readEscape (escape ++ text)) c text := by
  have hletter : ∀ {c d : Char}, (c == d) = true → ∀ letter : Char,
      (∀ text, readEscape (letter :: text) = .ok ⟨d, text, Nat.le_succ _⟩) →
      ∃ escape, ['\\', letter] = '\\' :: escape ∧ ∀ text, Gives (readEscape (escape ++ text)) c text := by
    intro c d hc letter hread
    rw [eq_of_beq hc]
    exact ⟨[letter], rfl, fun text => ⟨Nat.le_succ _, hread text⟩⟩
  unfold writeChar
  split_ifs with hquote hslash hback hfeed hline hreturn htab hcontrol
  · exact Or.inr (hletter hquote '"' fun _ => rfl)
  · exact Or.inr (hletter hslash '\\' fun _ => rfl)
  · exact Or.inr (hletter hback 'b' fun _ => rfl)
  · exact Or.inr (hletter hfeed 'f' fun _ => rfl)
  · exact Or.inr (hletter hline 'n' fun _ => rfl)
  · exact Or.inr (hletter hreturn 'r' fun _ => rfl)
  · exact Or.inr (hletter htab 't' fun _ => rfl)
  · exact Or.inr ⟨_, rfl, readEscape_hexQuad hcontrol⟩
  · exact Or.inl ⟨rfl, by simpa using hquote, by simpa using hslash, hcontrol⟩

/-- **A written character is read** in front of what is read behind it. -/
theorem readChars_writeChar (c : Char) (h : Gives (readChars text) cs rest) :
    Gives (readChars (writeChar c ++ text)) (c :: cs) rest := by
  obtain ⟨hle, hread⟩ := h
  rcases writeChar_cases c with ⟨hwrite, hquote, hslash, hcontrol⟩ | ⟨escape, hwrite, hescape⟩
  · rw [hwrite, List.singleton_append]
    refine ⟨Nat.le_succ_of_le hle, ?_⟩
    rw [readChars.eq_4 _ _ hquote hslash, if_neg hcontrol, hread]
    rfl
  · obtain ⟨hle', hescape⟩ := hescape text
    rw [hwrite, List.cons_append]
    refine ⟨(hle.trans hle').trans (Nat.le_succ _), ?_⟩
    simp only [readChars, hescape, bind, Except.bind, hread]
    rfl

theorem readChars_flatMap (cs rest : List Char) : Gives (readChars (cs.flatMap writeChar ++ '"' :: rest)) cs rest := by
  induction cs with
  | nil => exact ⟨Nat.le_succ _, readChars.eq_2 rest⟩
  | cons c cs ih =>
    rw [List.flatMap_cons, List.append_assoc]
    exact readChars_writeChar c ih

end Characters

/-! ## Strings -/

section Strings

variable {s t : String} {rest rest' : List Char}

/-- **A written string is read back**, whatever stands behind it. -/
theorem readString_writeString (s : String) (rest : List Char) :
    ∃ text, writeString s ++ rest = '"' :: text ∧ Gives (readString text) s rest := by
  obtain ⟨hle, hread⟩ := readChars_flatMap s.toList rest
  refine ⟨s.toList.flatMap writeChar ++ '"' :: rest, by simp [writeString], hle, ?_⟩
  rw [readString, hread]
  simp only [bind, Except.bind, Taken.map, String.ofList_toList]
  rfl

/-- A written string tells the string, and where it ends. -/
theorem writeString_append_inj (h : writeString s ++ rest = writeString t ++ rest') : s = t ∧ rest = rest' := by
  obtain ⟨text, htext, _, hread⟩ := readString_writeString s rest
  obtain ⟨text', htext', _, hread'⟩ := readString_writeString t rest'
  obtain rfl : text = text' := (List.cons.inj (htext.symm.trans (h.trans htext'))).2
  cases hread.symm.trans hread'
  exact ⟨rfl, rfl⟩

end Strings

end TypedSettings.Json
