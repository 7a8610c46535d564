import Mathlib.Tactic.IntervalCases
import TypedSettings.Json.Text
import TypedSettings.Proofs.Text.Lines
import TypedSettings.Text.Quoted

/-!
# Quoted texts read back

`readQuoted` reads a quoted text up to its closing quote and gives its value and what stands behind. Behind a backslash
stands a letter, or the hexadecimal digits of a code point in braces; a reader of one character after the other keeps
the digits read so far in its state (`QuotePlace`). An escape of another form is refused: quoted texts have none.

* `isQuotedOf_quoted`: a quoted text reads back to the text, whatever stands behind it;
* `lacks_quoted`: it has no line feed.
-/

namespace TypedSettings.Text

/-! ## Reading -/

/-- Where a reader stands: between characters, behind a backslash, in front of braces, or behind some digits inside
them, with how many these are and the number that they write. -/
inductive QuotePlace where
  | plain
  | escape
  | braces
  | digits (count value : Nat)

/-- The character that a letter behind a backslash stands for. -/
def letterEscape? (c : Char) : Option Char :=
  match c with
  | '"' => some '"'
  | '\'' => some '\''
  | '\\' => some '\\'
  | 'n' => some '\n'
  | 'r' => some '\r'
  | 't' => some '\t'
  | '0' => some '\x00'
  | _ => none

/-- The character of a code point that one to six digits write. -/
def bracedChar? (count value : Nat) : Option Char :=
  if count = 0 ∨ 6 < count then none else if value.isValidChar then some (Char.ofNat value) else none

/-- What is read behind a character, with that character in front. -/
def pushChar (c : Char) (read : Option (List Char × List Char)) : Option (List Char × List Char) :=
  read.map fun (value, rest) => (c :: value, rest)

/-- Reads from a place on, up to the closing quote. -/
def readQuotedFrom : QuotePlace → List Char → Option (List Char × List Char)
  | _, [] => none
  | .plain, c :: cs =>
    if c = '"' then some ([], cs)
    else if c = '\\' then readQuotedFrom .escape cs
    else if c = '\r' then none
    else pushChar c (readQuotedFrom .plain cs)
  | .escape, c :: cs =>
    if c = 'u' then readQuotedFrom .braces cs
    else match letterEscape? c with
      | some d => pushChar d (readQuotedFrom .plain cs)
      | none => none
  | .braces, c :: cs => if c = '\x7b' then readQuotedFrom (.digits 0 0) cs else none
  | .digits count value, c :: cs =>
    if c = '\x7d' then match bracedChar? count value with
      | some d => pushChar d (readQuotedFrom .plain cs)
      | none => none
    else match Json.hexValue? c with
      | some d => readQuotedFrom (.digits (count + 1) (16 * value + d)) cs
      | none => none

/-- Reads a quoted text: gives its value and what stands behind the closing quote. -/
def readQuoted : List Char → Option (List Char × List Char)
  | [] => none
  | c :: cs => if c = '"' then readQuotedFrom .plain cs else none

/-! ## Hexadecimal digits -/

theorem hexValue?_digitChar {d : Nat} (h : d < 16) : Json.hexValue? d.digitChar = some d := by
  interval_cases d <;> rfl

theorem digitChar_ne_brace {d : Nat} (h : d < 16) : d.digitChar ≠ '\x7d' := by
  interval_cases d <;> decide

theorem readQuotedFrom_digit {d : Nat} (h : d < 16) (count value : Nat) (rest : List Char) :
    readQuotedFrom (.digits count value) (d.digitChar :: rest) =
      readQuotedFrom (.digits (count + 1) (16 * value + d)) rest := by
  rw [readQuotedFrom, if_neg (digitChar_ne_brace h), hexValue?_digitChar h]

/-- Behind the digits of a quotient comes that of the remainder. -/
theorem hexDigits_of_le {n : Nat} (h : 16 ≤ n) : hexDigits n = hexDigits (n / 16) ++ [(n % 16).digitChar] :=
  Nat.toDigits_of_base_le (by decide) h

theorem hexDigits_of_lt {n : Nat} (h : n < 16) : hexDigits n = [n.digitChar] := Nat.toDigits_of_lt_base h

/-- The digits of a number are read as that number. -/
theorem readQuotedFrom_hexDigits (n : Nat) : ∀ rest : List Char,
    readQuotedFrom (.digits 0 0) (hexDigits n ++ rest) = readQuotedFrom (.digits (hexDigits n).length n) rest := by
  induction n using Nat.strong_induction_on with
  | h n ih =>
    intro rest
    by_cases hn : n < 16
    · rw [hexDigits_of_lt hn, List.singleton_append, readQuotedFrom_digit hn, Nat.mul_zero, Nat.zero_add,
        List.length_singleton, Nat.zero_add]
    · have hmod : n % 16 < 16 := Nat.mod_lt n (by decide)
      rw [hexDigits_of_le (by omega), List.append_assoc, ih (n / 16) (by omega), List.singleton_append,
        readQuotedFrom_digit hmod, Nat.div_add_mod, List.length_append, List.length_singleton]

theorem exists_of_mem_hexDigits {c : Char} (n : Nat) : c ∈ hexDigits n → ∃ d < 16, c = d.digitChar := by
  induction n using Nat.strong_induction_on with
  | h n ih =>
    intro hmem
    by_cases hn : n < 16
    · rw [hexDigits_of_lt hn] at hmem
      exact ⟨n, hn, List.mem_singleton.mp hmem⟩
    · rw [hexDigits_of_le (by omega)] at hmem
      rcases List.mem_append.mp hmem with hmem | hmem
      · exact ih (n / 16) (by omega) hmem
      · exact ⟨n % 16, Nat.mod_lt n (by decide), List.mem_singleton.mp hmem⟩

theorem bracedChar?_toNat (c : Char) : bracedChar? (hexDigits c.toNat).length c.toNat = some c := by
  have hlt : c.toNat < 16 ^ 6 := by
    rcases c.valid with h | ⟨-, h⟩
    · exact Nat.lt_trans h (by decide)
    · exact Nat.lt_trans h (by decide)
  have hlen : (hexDigits c.toNat).length ≤ 6 := (Nat.length_toDigits_le_iff (by decide) (by decide)).mpr hlt
  have hpos : (hexDigits c.toNat).length ≠ 0 := fun h => Nat.toDigits_ne_nil (List.eq_nil_of_length_eq_zero h)
  rw [bracedChar?, if_neg (by omega), if_pos (show c.toNat.isValidChar from c.valid), Char.ofNat_toNat]

/-! ## Quoted characters -/

section Quoted

variable {hidden : Char → Bool}

/-- A quoted character is read as that character. -/
theorem readQuotedFrom_quotedChar (c : Char) (rest : List Char) :
    readQuotedFrom .plain (quotedChar hidden c ++ rest) = pushChar c (readQuotedFrom .plain rest) := by
  unfold quotedChar
  split_ifs with hquote hslash hfeed hreturn htab hnull hhidden
  · rw [eq_of_beq hquote]; rfl
  · rw [eq_of_beq hslash]; rfl
  · rw [eq_of_beq hfeed]; rfl
  · rw [eq_of_beq hreturn]; rfl
  · rw [eq_of_beq htab]; rfl
  · have hc : c = '\x00' := by rw [← Char.ofNat_toNat c, eq_of_beq hnull]
    rw [hc]; rfl
  · have hdigits := readQuotedFrom_hexDigits c.toNat ('\x7d' :: rest)
    rw [readQuotedFrom.eq_5, if_pos rfl, bracedChar?_toNat] at hdigits
    rw [List.append_assoc, List.append_assoc, List.singleton_append]
    exact hdigits
  · rw [List.singleton_append, readQuotedFrom, if_neg (by simpa using hquote), if_neg (by simpa using hslash),
      if_neg (by simpa using hreturn)]

theorem readQuotedFrom_flatMap (rest : List Char) : ∀ cs : List Char,
    readQuotedFrom .plain (cs.flatMap (quotedChar hidden) ++ '"' :: rest) = some (cs, rest)
  | [] => rfl
  | c :: cs => by
    rw [List.flatMap_cons, List.append_assoc, readQuotedFrom_quotedChar, readQuotedFrom_flatMap rest cs]
    rfl

/-- **Quoted characters read back**, whichever of them are hidden and whatever stands behind. -/
theorem readQuoted_quotedChars (cs rest : List Char) :
    readQuoted (quotedChars hidden cs ++ rest) = some (cs, rest) := by
  rw [quotedChars, List.cons_append, List.append_assoc, List.singleton_append, readQuoted, if_pos rfl,
    readQuotedFrom_flatMap]

/-- A text reads as a value, and leaves what stands behind it. -/
def IsQuotedOf (value text : String) : Prop :=
  ∀ rest, readQuoted (text.toList ++ rest) = some (value.toList, rest)

/-- A quoted text reads back to the text. -/
theorem isQuotedOf_quoted (s : String) : IsQuotedOf s (quoted s) := fun rest => by
  rw [quoted, String.toList_ofList, readQuoted_quotedChars]

theorem digitChar_ne_feed {d : Nat} (h : d < 16) : d.digitChar ≠ '\n' := by
  interval_cases d <;> decide

/-- No quoted character is a line feed. -/
theorem not_mem_quotedChar (c : Char) : '\n' ∉ quotedChar hidden c := by
  intro hmem
  unfold quotedChar at hmem
  split_ifs at hmem with hquote hslash hfeed hreturn htab hnull hhidden
  -- what a letter or a mark stands for
  any_goals
    revert hmem
    decide
  · rcases List.mem_append.mp hmem with hmem | hmem
    · rcases List.mem_append.mp hmem with hmem | hmem
      · exact absurd hmem (by decide)
      · obtain ⟨d, hd, hdigit⟩ := exists_of_mem_hexDigits c.toNat hmem
        exact digitChar_ne_feed hd hdigit.symm
    · exact absurd hmem (by decide)
  · exact hfeed (beq_iff_eq.mpr (List.mem_singleton.mp hmem).symm)

/-- **A quoted text stays on its line.** -/
theorem lacks_quoted (s : String) : Lacks isLineFeed (quoted s) := by
  have hfree : '\n' ∉ quotedChars isHidden s.toList := by
    rw [quotedChars, List.mem_cons, List.mem_append, List.mem_flatMap, List.mem_singleton]
    rintro (h | ⟨c, -, h⟩ | h)
    · exact absurd h (by decide)
    · exact not_mem_quotedChar c h
    · exact absurd h (by decide)
  intro c hc
  refine beq_false_of_ne ?_
  rintro rfl
  rw [quoted, String.toList_ofList] at hc
  exact hfree hc

end Quoted

end TypedSettings.Text
