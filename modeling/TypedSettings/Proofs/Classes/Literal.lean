import TypedSettings.Classes.Literal
import TypedSettings.Proofs.Text.Quoted

/-!
# String literals of the classes read back

`readLiteral` reads a string literal up to its closing quote and gives its value and what stands behind. Behind a
backslash stands a letter, or a `u` and exactly four hexadecimal digits; no character that ends a line stands in a
literal. Longer escapes, and those of a variable length, are refused: literals are written without them.

* `isLiteralOf_literal`: the literal of a text reads back to the text, whatever stands behind it;
* `lacks_literal`: no character in it ends a line;
* `lacks_summaryText_iff`: in a comment a text keeps its separators of lines and paragraphs, but no other line end.
-/

namespace TypedSettings.Classes

open Text

/-! ## Reading -/

/-- Whether a character ends a line. -/
def endsLine (c : Char) : Bool :=
  c.toNat == 0x0A || c.toNat == 0x0D || c.toNat == 0x85 || c.toNat == 0x2028 || c.toNat == 0x2029

/-- Where a reader stands: between characters, behind a backslash, or in front of a hexadecimal digit, with how many
more come behind it and the number that those in front write. -/
inductive LiteralPlace where
  | plain
  | escape
  | digit (more value : Nat)

/-- The character that a letter behind a backslash stands for. -/
def simpleEscape? (c : Char) : Option Char :=
  match c with
  | '\'' => some '\''
  | '"' => some '"'
  | '\\' => some '\\'
  | '0' => some '\x00'
  | 'a' => some '\x07'
  | 'b' => some '\x08'
  | 'f' => some '\x0c'
  | 'n' => some '\n'
  | 'r' => some '\r'
  | 't' => some '\t'
  | 'v' => some '\x0b'
  | _ => none

/-- Reads from a place on, up to the closing quote. -/
def readLiteralFrom : LiteralPlace → List Char → Option (List Char × List Char)
  | _, [] => none
  | .plain, c :: cs =>
    if c = '"' then some ([], cs)
    else if c = '\\' then readLiteralFrom .escape cs
    else if endsLine c then none
    else pushChar c (readLiteralFrom .plain cs)
  | .escape, c :: cs =>
    if c = 'u' then readLiteralFrom (.digit 3 0) cs
    else match simpleEscape? c with
      | some d => pushChar d (readLiteralFrom .plain cs)
      | none => none
  | .digit more value, c :: cs =>
    match Json.hexValue? c, more with
    | some d, more + 1 => readLiteralFrom (.digit more (16 * value + d)) cs
    | some d, 0 =>
      if (16 * value + d).isValidChar then pushChar (Char.ofNat (16 * value + d)) (readLiteralFrom .plain cs) else none
    | none, _ => none

/-- Reads a literal: gives its value and what stands behind the closing quote. -/
def readLiteral : List Char → Option (List Char × List Char)
  | [] => none
  | c :: cs => if c = '"' then readLiteralFrom .plain cs else none

/-- A text reads as the literal of a value, and leaves what stands behind it. -/
def IsLiteralOf (value text : String) : Prop :=
  ∀ rest, readLiteral (text.toList ++ rest) = some (value.toList, rest)

/-! ## Written literals -/

/-- Four digits are read as the number that they write. -/
theorem readLiteralFrom_hexQuad {c : Char} (h : c.toNat < 65536) (rest : List Char) :
    readLiteralFrom (.digit 3 0) (hexQuad c.toNat ++ rest) = pushChar c (readLiteralFrom .plain rest) := by
  have hdigit : ∀ n, Json.hexValue? (n % 16).digitChar = some (n % 16) :=
    fun n => hexValue?_digitChar (Nat.mod_lt n (by decide))
  have hvalue : 16 * (16 * (16 * (16 * 0 + c.toNat / 4096 % 16) + c.toNat / 256 % 16) + c.toNat / 16 % 16) +
      c.toNat % 16 = c.toNat := by omega
  simp only [hexQuad, List.cons_append, List.nil_append, readLiteralFrom, hdigit]
  rw [hvalue, if_pos (show c.toNat.isValidChar from c.valid), Char.ofNat_toNat]

/-- A control character, and a separator of lines or paragraphs, is written in four digits. -/
theorem toNat_lt_of_isControl {c : Char} (h : (isControl c || isSeparator c) = true) : c.toNat < 65536 := by
  simp only [isControl, isSeparator, Bool.or_eq_true, Bool.and_eq_true, decide_eq_true_eq, beq_iff_eq] at h
  omega

/-- The characters that are written as they are end no line. -/
theorem endsLine_eq_false {c : Char} (h : ¬(isControl c || isSeparator c) = true) : endsLine c = false := by
  simp only [isControl, isSeparator, Bool.or_eq_true, Bool.and_eq_true, decide_eq_true_eq, beq_iff_eq] at h
  simp only [endsLine, Bool.or_eq_false_iff, beq_eq_false_iff_ne]
  omega

/-- A character of a literal is read as that character. -/
theorem readLiteralFrom_literalChar (c : Char) (rest : List Char) :
    readLiteralFrom .plain (literalChar c ++ rest) = pushChar c (readLiteralFrom .plain rest) := by
  unfold literalChar
  split_ifs with hquote hslash hfeed hreturn htab hnull hhidden
  · rw [eq_of_beq hquote]; rfl
  · rw [eq_of_beq hslash]; rfl
  · rw [eq_of_beq hfeed]; rfl
  · rw [eq_of_beq hreturn]; rfl
  · rw [eq_of_beq htab]; rfl
  · have hc : c = '\x00' := by rw [← Char.ofNat_toNat c, eq_of_beq hnull]
    rw [hc]; rfl
  · exact readLiteralFrom_hexQuad (toNat_lt_of_isControl hhidden) rest
  · rw [List.singleton_append, readLiteralFrom, if_neg (by simpa using hquote), if_neg (by simpa using hslash),
      if_neg (by simp [endsLine_eq_false hhidden])]

theorem readLiteralFrom_flatMap (rest : List Char) : ∀ cs : List Char,
    readLiteralFrom .plain (cs.flatMap literalChar ++ '"' :: rest) = some (cs, rest)
  | [] => rfl
  | c :: cs => by
    rw [List.flatMap_cons, List.append_assoc, readLiteralFrom_literalChar, readLiteralFrom_flatMap rest cs]
    rfl

/-- **The literal of a text reads back to the text**, whatever stands behind it. -/
theorem isLiteralOf_literal (s : String) : IsLiteralOf s (literal s) := fun rest => by
  rw [literal, String.toList_ofList, List.cons_append, List.append_assoc, List.singleton_append, readLiteral,
    if_pos rfl, readLiteralFrom_flatMap]

/-! ## No line end inside -/

/-- What no hexadecimal digit is, none of four digits is. -/
theorem forall_mem_hexQuad {kind : Char → Bool} (hdigits : ∀ d : Fin 16, kind d.val.digitChar = false) (n : Nat) :
    ∀ c ∈ hexQuad n, kind c = false := by
  have hdigit : ∀ m, kind (m % 16).digitChar = false := fun m => hdigits ⟨m % 16, Nat.mod_lt m (by decide)⟩
  intro c hc
  rw [hexQuad, List.mem_cons, List.mem_cons, List.mem_cons, List.mem_singleton] at hc
  rcases hc with rfl | rfl | rfl | rfl
  all_goals exact hdigit _

theorem forall_mem_literalChar (c : Char) : ∀ d ∈ literalChar c, endsLine d = false := by
  unfold literalChar
  split_ifs with hquote hslash hfeed hreturn htab hnull hhidden
  any_goals exact forall_mem_of_any rfl
  · have hquad : ∀ d ∈ hexQuad c.toNat, endsLine d = false := forall_mem_hexQuad (by decide) c.toNat
    exact List.forall_mem_cons.mpr ⟨by decide, List.forall_mem_cons.mpr ⟨by decide, hquad⟩⟩
  · exact List.forall_mem_singleton.mpr (endsLine_eq_false hhidden)

/-- **No character of a literal ends a line.** -/
theorem lacks_literal (s : String) : Lacks endsLine (literal s) := by
  intro c hc
  rw [literal, String.toList_ofList, List.mem_cons, List.mem_append, List.mem_flatMap, List.mem_singleton] at hc
  rcases hc with rfl | ⟨d, -, hd⟩ | rfl
  · decide
  · exact forall_mem_literalChar d c hd
  · decide

theorem mem_summaryText {s : String} {c : Char} :
    c ∈ (summaryText s).toList ↔ ∃ d ∈ s.toList, c ∈ summaryChar d := by
  rw [summaryText, String.toList_ofList, List.mem_flatMap]

theorem forall_mem_summaryChar {c : Char} (h : isSeparator c = false) : ∀ d ∈ summaryChar c, endsLine d = false := by
  unfold summaryChar
  split_ifs with hand hless hgreater hquote hcontrol
  any_goals exact forall_mem_of_any rfl
  · exact List.forall_mem_singleton.mpr (endsLine_eq_false (by rw [h, Bool.or_false]; exact hcontrol))

/-- A separator of lines or paragraphs stands in a comment as it is. -/
theorem summaryChar_of_isSeparator {c : Char} (h : isSeparator c = true) : summaryChar c = [c] := by
  simp only [isSeparator, Bool.or_eq_true, beq_iff_eq] at h
  rw [← Char.ofNat_toNat c]
  rcases h with h | h
  · rw [h]
    decide
  · rw [h]
    decide

theorem endsLine_of_isSeparator {c : Char} (h : isSeparator c = true) : endsLine c = true := by
  simp only [isSeparator, Bool.or_eq_true, beq_iff_eq] at h
  simp only [endsLine, Bool.or_eq_true, beq_iff_eq]
  omega

/-- **In a comment a text has no line ends but its separators** of lines and paragraphs, and it has all of these. -/
theorem lacks_summaryText_iff {s : String} : Lacks endsLine (summaryText s) ↔ Lacks isSeparator s := by
  constructor
  · intro h c hc
    by_cases hseparator : isSeparator c = true
    · have hshown : c ∈ summaryChar c := by
        rw [summaryChar_of_isSeparator hseparator]
        exact List.mem_singleton_self c
      have hend := h c (mem_summaryText.mpr ⟨c, hc, hshown⟩)
      rw [endsLine_of_isSeparator hseparator] at hend
      cases hend
    · exact eq_false_of_ne_true hseparator
  · intro h c hc
    obtain ⟨d, hd, hc⟩ := mem_summaryText.mp hc
    exact forall_mem_summaryChar (h d hd) c hc

/-- Whether a character ends a line and is no separator of lines or paragraphs. -/
def isHardEnd (c : Char) : Bool := endsLine c && !isSeparator c

theorem endsLine_of_isHardEnd {c : Char} (h : isHardEnd c = true) : endsLine c = true := (Bool.and_eq_true_iff.mp h).1

/-- Whatever the text, its separators are the only line ends that it has in a comment. -/
theorem lacks_isHardEnd_summaryText (s : String) : Lacks isHardEnd (summaryText s) := by
  intro c hc
  obtain ⟨d, -, hc⟩ := mem_summaryText.mp hc
  by_cases hseparator : isSeparator d = true
  · rw [summaryChar_of_isSeparator hseparator] at hc
    rw [List.mem_singleton.mp hc, isHardEnd, hseparator, Bool.not_true, Bool.and_false]
  · have hend := forall_mem_summaryChar (eq_false_of_ne_true hseparator) c hc
    rw [isHardEnd, hend, Bool.false_and]

end TypedSettings.Classes
