import TypedSettings.Proofs.Classes.Literal

/-!
# The spelling of string literals

The rules of string literals, as a relation (`IsSpelling`): between two quotes stand parts that spell one character each
(`Spells`), a plain character, a simple escape or the four digits of a code point.

* `readLiteral_eq_some_iff`: the reader of literals reads the spellings of all values and nothing else, so that no text
  spells two values, nor one value and more;
* `IsSpelling.exists_body`: a spelling has no quotes inside but escaped ones;
* `literal_spelling`: the literal of a text spells the text, and it alone.
-/

namespace TypedSettings.Classes

open Text

variable {c : Char} {cs part value spelling text rest : List Char}

/-! ## Spellings -/

/-- A part of a literal spells a character. -/
inductive Spells : Char → List Char → Prop
  /-- A character that is no quote and no backslash and ends no line stands as it is. -/
  | plain {c : Char} : c ≠ '"' → c ≠ '\\' → endsLine c = false → Spells c [c]
  /-- A letter behind a backslash stands for a character. -/
  | simple {c letter : Char} : simpleEscape? letter = some c → Spells c ['\\', letter]
  /-- Exactly four digits behind a backslash and a `u` write the code point. -/
  | digits {c a₁ a₂ a₃ a₄ : Char} : Json.hexUnit? a₁ a₂ a₃ a₄ = some c.toNat → Spells c ['\\', 'u', a₁, a₂, a₃, a₄]

/-- A text is a whole literal with a value. -/
def IsSpelling (value text : List Char) : Prop :=
  ∃ parts, List.Forall₂ Spells value parts ∧ text = '"' :: (parts.flatten ++ ['"'])

/-! ## Reader and relation -/

theorem pushChar_eq_some {read : Option (List Char × List Char)} :
    pushChar c read = some (value, rest) ↔ ∃ behind, value = c :: behind ∧ read = some (behind, rest) := by
  rw [pushChar, Option.map_eq_some_iff]
  constructor
  · rintro ⟨⟨behind, left⟩, hread, heq⟩
    obtain ⟨rfl, rfl⟩ := Prod.mk.inj heq
    exact ⟨behind, rfl, hread⟩
  · rintro ⟨behind, rfl, hread⟩
    exact ⟨(behind, rest), hread, rfl⟩

theorem readLiteralFrom_nil (place : LiteralPlace) : readLiteralFrom place [] = none := by cases place <;> rfl

/-- A digit in front of others is read into the number in front of them. -/
theorem readLiteralFrom_digit_succ (more n : Nat) (a : Char) (cs : List Char) :
    readLiteralFrom (.digit (more + 1) n) (a :: cs) =
      (Json.hexValue? a).bind fun d => readLiteralFrom (.digit more (16 * n + d)) cs := by
  cases ha : Json.hexValue? a with
  | none => simp only [readLiteralFrom, ha, Option.bind_none]
  | some d => simp only [readLiteralFrom, ha, Option.bind_some]

/-- The last digit ends the number, which is to be a code point. -/
theorem readLiteralFrom_digit_zero (n : Nat) (a : Char) (cs : List Char) :
    readLiteralFrom (.digit 0 n) (a :: cs) = (Json.hexValue? a).bind fun d =>
      if (16 * n + d).isValidChar then pushChar (Char.ofNat (16 * n + d)) (readLiteralFrom .plain cs) else none := by
  cases ha : Json.hexValue? a with
  | none => simp only [readLiteralFrom, ha, Option.bind_none]
  | some d => simp only [readLiteralFrom, ha, Option.bind_some]

/-- The reader takes exactly four digits for a number. -/
theorem readLiteralFrom_digits (a₁ a₂ a₃ a₄ : Char) (cs : List Char) :
    readLiteralFrom (.digit 3 0) (a₁ :: a₂ :: a₃ :: a₄ :: cs) = (Json.hexUnit? a₁ a₂ a₃ a₄).bind fun n =>
      if n.isValidChar then pushChar (Char.ofNat n) (readLiteralFrom .plain cs) else none := by
  simp only [readLiteralFrom_digit_succ, readLiteralFrom_digit_zero, Json.hexUnit?, Option.bind_eq_bind,
    Option.bind_assoc, Option.pure_def, Option.bind_some, Nat.mul_comm 16, Nat.zero_mul, Nat.zero_add]

/-- What a part spells is what the reader reads from it. -/
theorem Spells.readLiteralFrom_append (h : Spells c part) (cs : List Char) :
    readLiteralFrom .plain (part ++ cs) = pushChar c (readLiteralFrom .plain cs) := by
  cases h with
  | plain hquote hslash hend =>
    rw [List.singleton_append, readLiteralFrom, if_neg hquote, if_neg hslash, hend]
    rfl
  | @simple letter hletter =>
    have hu : letter ≠ 'u' := by
      rintro rfl
      cases hletter
    rw [List.cons_append, List.singleton_append, readLiteralFrom, if_neg (by decide), if_pos rfl, readLiteralFrom,
      if_neg hu, hletter]
  | @digits a₁ a₂ a₃ a₄ hunit =>
    have hread := readLiteralFrom_digits a₁ a₂ a₃ a₄ cs
    rw [hunit, Option.bind_some, if_pos (show c.toNat.isValidChar from c.valid), Char.ofNat_toNat] at hread
    exact hread

/-- Fewer than four digits are not read at all. -/
theorem exists_four_of_readLiteralFrom : ∀ {cs : List Char}, readLiteralFrom (.digit 3 0) cs = some (value, rest) →
    ∃ a₁ a₂ a₃ a₄ left, cs = a₁ :: a₂ :: a₃ :: a₄ :: left
  | a₁ :: a₂ :: a₃ :: a₄ :: left, _ => ⟨a₁, a₂, a₃, a₄, left, rfl⟩
  | [], h | [_], h | [_, _], h | [_, _, _], h => by
    simp only [readLiteralFrom_digit_succ, readLiteralFrom_nil, Option.bind_fun_none, reduceCtorEq] at h

theorem toNat_ofNat {n : Nat} (h : n.isValidChar) : (Char.ofNat n).toNat = n := by
  rw [Char.ofNat, dif_pos h]
  rfl

/-- Behind a backslash the reader reads a simple escape or four digits. -/
theorem exists_spells_escape : ∀ {cs : List Char}, readLiteralFrom .escape cs = some (value, rest) →
    ∃ c part behind left, Spells c part ∧ value = c :: behind ∧ '\\' :: cs = part ++ left ∧
      readLiteralFrom .plain left = some (behind, rest)
  | [], h => by cases h
  | letter :: cs, h => by
    rw [readLiteralFrom] at h
    split_ifs at h with hu
    · obtain ⟨a₁, a₂, a₃, a₄, left, rfl⟩ := exists_four_of_readLiteralFrom h
      rw [readLiteralFrom_digits, Option.bind_eq_some_iff] at h
      obtain ⟨n, hunit, h⟩ := h
      split_ifs at h with hvalid
      obtain ⟨behind, hvalue, hread⟩ := pushChar_eq_some.mp h
      rw [← toNat_ofNat hvalid] at hunit
      exact ⟨_, _, behind, left, .digits hunit, hvalue, by rw [hu]; rfl, hread⟩
    · cases hletter : simpleEscape? letter with
      | none => rw [hletter] at h; cases h
      | some c =>
        rw [hletter] at h
        obtain ⟨behind, hvalue, hread⟩ := pushChar_eq_some.mp h
        exact ⟨c, _, behind, cs, .simple hletter, hvalue, rfl, hread⟩

/-- What the reader reads in front of the closing quote spells a character. -/
theorem exists_spells : ∀ {cs : List Char}, readLiteralFrom .plain cs = some (value, rest) →
    (value = [] ∧ cs = '"' :: rest) ∨ ∃ c part behind left, Spells c part ∧ value = c :: behind ∧ cs = part ++ left ∧
      readLiteralFrom .plain left = some (behind, rest)
  | [], h => by cases h
  | a :: cs, h => by
    rw [readLiteralFrom] at h
    split_ifs at h with hquote hslash hend
    · obtain ⟨rfl, rfl⟩ := Prod.mk.inj (Option.some.inj h)
      exact Or.inl ⟨rfl, by rw [hquote]⟩
    · rw [hslash]
      exact Or.inr (exists_spells_escape h)
    · obtain ⟨behind, hvalue, hread⟩ := pushChar_eq_some.mp h
      exact Or.inr ⟨a, [a], behind, cs, .plain hquote hslash (eq_false_of_ne_true hend), hvalue, rfl, hread⟩

/-- The reader reads a list of parts, one character from each, up to a quote. -/
theorem readLiteralFrom_eq_some_iff : readLiteralFrom .plain cs = some (value, rest) ↔
    ∃ parts, List.Forall₂ Spells value parts ∧ cs = parts.flatten ++ '"' :: rest := by
  constructor
  · intro h
    induction value generalizing cs with
    | nil =>
      obtain ⟨-, rfl⟩ | ⟨c, part, behind, left, -, hvalue, -⟩ := exists_spells h
      · exact ⟨[], .nil, rfl⟩
      · cases hvalue
    | cons c behind ih =>
      obtain ⟨hvalue, -⟩ | ⟨c, part, behind, left, hspells, hvalue, rfl, hread⟩ := exists_spells h
      · cases hvalue
      · obtain ⟨rfl, rfl⟩ := List.cons.inj hvalue
        obtain ⟨parts, hparts, rfl⟩ := ih hread
        exact ⟨part :: parts, .cons hspells hparts, by rw [List.flatten_cons, List.append_assoc]⟩
  · rintro ⟨parts, hparts, rfl⟩
    induction hparts with
    | nil => rfl
    | cons hspells _ ih =>
      rw [List.flatten_cons, List.append_assoc, hspells.readLiteralFrom_append, ih]
      rfl

/-- **The reader reads the spellings of all values and nothing else**, and leaves what stands behind. -/
theorem readLiteral_eq_some_iff :
    readLiteral text = some (value, rest) ↔ ∃ spelling, IsSpelling value spelling ∧ text = spelling ++ rest := by
  constructor
  · intro h
    cases text with
    | nil => cases h
    | cons c cs =>
      rw [readLiteral] at h
      split_ifs at h with hquote
      obtain ⟨parts, hparts, rfl⟩ := readLiteralFrom_eq_some_iff.mp h
      exact ⟨_, ⟨parts, hparts, rfl⟩, by rw [hquote]; simp⟩
  · rintro ⟨_, ⟨parts, hparts, rfl⟩, rfl⟩
    rw [List.cons_append, List.append_assoc, List.singleton_append, readLiteral, if_pos rfl]
    exact readLiteralFrom_eq_some_iff.mpr ⟨parts, hparts, rfl⟩

/-! ## Quotes inside -/

/-- A text without its escapes, that is, without each backslash and the character behind it. -/
def unescaped : List Char → List Char
  | [] => []
  | [c] => [c]
  | c :: d :: cs => if c = '\\' then unescaped cs else c :: unescaped (d :: cs)

theorem unescaped_escape (d : Char) (cs : List Char) : unescaped ('\\' :: d :: cs) = unescaped cs := by
  rw [unescaped, if_pos rfl]

theorem unescaped_cons (h : c ≠ '\\') (cs : List Char) : unescaped (c :: cs) = c :: unescaped cs := by
  cases cs with
  | nil => rfl
  | cons d cs => rw [unescaped, if_neg h]

/-- Characters that are no quotes and no backslashes put no quote in front. -/
theorem quote_not_mem_unescaped_append (hpart : ∀ a ∈ part, a ≠ '"' ∧ a ≠ '\\') (hcs : '"' ∉ unescaped cs) :
    '"' ∉ unescaped (part ++ cs) := by
  induction part with
  | nil => exact hcs
  | cons a part ih =>
    obtain ⟨⟨hquote, hslash⟩, hpart⟩ := List.forall_mem_cons.mp hpart
    rw [List.cons_append, unescaped_cons hslash]
    exact List.not_mem_cons_of_ne_of_not_mem hquote.symm (ih hpart)

/-- No digit is a quote or a backslash. -/
theorem ne_of_hexValue? {a : Char} {d : Nat} (h : Json.hexValue? a = some d) : a ≠ '"' ∧ a ≠ '\\' := by
  constructor <;> (rintro rfl; cases h)

theorem forall_mem_of_hexUnit? {a₁ a₂ a₃ a₄ : Char} {n : Nat} (h : Json.hexUnit? a₁ a₂ a₃ a₄ = some n) :
    ∀ a ∈ [a₁, a₂, a₃, a₄], a ≠ '"' ∧ a ≠ '\\' := by
  simp only [Json.hexUnit?, Option.bind_eq_bind, Option.bind_eq_some_iff] at h
  obtain ⟨d₁, h₁, d₂, h₂, d₃, h₃, d₄, h₄, -⟩ := h
  simp only [List.forall_mem_cons, List.not_mem_nil, false_imp_iff, implies_true, and_true]
  exact ⟨ne_of_hexValue? h₁, ne_of_hexValue? h₂, ne_of_hexValue? h₃, ne_of_hexValue? h₄⟩

/-- A part puts no quote in front that is not escaped. -/
theorem Spells.quote_not_mem (h : Spells c part) (hcs : '"' ∉ unescaped cs) : '"' ∉ unescaped (part ++ cs) := by
  cases h with
  | plain hquote hslash _ => exact quote_not_mem_unescaped_append (List.forall_mem_singleton.mpr ⟨hquote, hslash⟩) hcs
  | simple _ =>
    rw [List.cons_append, List.singleton_append, unescaped_escape]
    exact hcs
  | digits hunit =>
    rw [List.cons_append, List.cons_append, unescaped_escape]
    exact quote_not_mem_unescaped_append (forall_mem_of_hexUnit? hunit) hcs

/-- **Between the quotes of a spelling stands no quote** that is not escaped. -/
theorem IsSpelling.exists_body (h : IsSpelling value text) :
    ∃ body, text = '"' :: (body ++ ['"']) ∧ '"' ∉ unescaped body := by
  obtain ⟨parts, hparts, rfl⟩ := h
  refine ⟨parts.flatten, rfl, ?_⟩
  induction hparts with
  | nil => exact List.not_mem_nil
  | cons hspells _ ih => exact hspells.quote_not_mem ih

/-! ## The literal of a text -/

/-- **The literal of a text spells the text, and nothing else.** Read with whatever stands behind it, it gives the text
and leaves that; it has no quote inside that is not escaped, and no character that ends a line. Hence different texts
have different literals. -/
theorem literal_spelling :
    (∀ s : String, (∀ value, IsSpelling value (literal s).toList ↔ value = s.toList) ∧
      (∀ rest, readLiteral ((literal s).toList ++ rest) = some (s.toList, rest)) ∧
      (∃ body, (literal s).toList = '"' :: (body ++ ['"']) ∧ '"' ∉ unescaped body) ∧ Lacks endsLine (literal s)) ∧
    Function.Injective literal := by
  have hread : ∀ s : String, readLiteral ((literal s).toList ++ []) = some (s.toList, []) :=
    fun s => isLiteralOf_literal s []
  have hspelling : ∀ s value, IsSpelling value (literal s).toList ↔ value = s.toList := by
    intro s value
    have hvalue : IsSpelling value (literal s).toList ↔ readLiteral ((literal s).toList ++ []) = some (value, []) := by
      rw [readLiteral_eq_some_iff]
      simp
    rw [hvalue, hread, Option.some.injEq, Prod.mk.injEq, and_iff_left rfl, eq_comm]
  refine ⟨fun s => ⟨hspelling s, isLiteralOf_literal s, ?_, lacks_literal s⟩, fun s t h => ?_⟩
  · exact ((hspelling s s.toList).mpr rfl).exists_body
  · have hs := (hspelling s s.toList).mpr rfl
    rw [h] at hs
    exact String.toList_inj.mp ((hspelling t s.toList).mp hs)

/-- A digit behind an escape does not make it longer. -/
example : literal "\x001\\u" = "\"\\01\\\\u\"" := by decide

end TypedSettings.Classes
