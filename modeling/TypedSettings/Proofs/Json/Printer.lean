import TypedSettings.Json.Printer
import TypedSettings.Proofs.FreeName
import TypedSettings.Proofs.Json.Text
import TypedSettings.Proofs.Value.Reach

/-!
# Printed values are told apart

The text of a value tells the value, and where it ends, if no digit stands behind it: its first character tells the kind
(`kindOf_prettyChars`), a string ends at its quote, a whole number where its digits end, and a list or an object behind
its last part. This is said of values without floats, whose texts need not tell one from another
(`prettyChars_append_inj`).
-/

namespace TypedSettings

namespace Value

open Json

/-! ## Values without floats -/

mutual

/-- Whether no float is in a value. -/
def lacksFloats : Value → Bool
  | .float _ => false
  | .array elements => elementsLackFloats elements
  | .object members => membersLackFloats members
  | _ => true

/-- Whether no float is in the elements of an array. -/
def elementsLackFloats : List Value → Bool
  | [] => true
  | x :: xs => lacksFloats x && elementsLackFloats xs

/-- Whether no float is in the values of members. -/
def membersLackFloats : List (String × Value) → Bool
  | [] => true
  | (_, x) :: members => lacksFloats x && membersLackFloats members

end

theorem lacksFloats_array {elements : List Value} :
    lacksFloats (.array elements) = true ↔ ∀ x ∈ elements, x.lacksFloats = true := by
  rw [lacksFloats]
  induction elements with
  | nil => simp [elementsLackFloats]
  | cons x xs ih => rw [elementsLackFloats, Bool.and_eq_true, ih, List.forall_mem_cons]

theorem lacksFloats_object {members : List (String × Value)} :
    lacksFloats (.object members) = true ↔ ∀ member ∈ members, member.2.lacksFloats = true := by
  rw [lacksFloats]
  induction members with
  | nil => simp [membersLackFloats]
  | cons member members ih => rw [membersLackFloats, Bool.and_eq_true, ih, List.forall_mem_cons]

/-! ## Where a text ends -/

/-- No digit stands at the front of a text. -/
def EndsNumber (text : List Char) : Prop := ∀ c ∈ text.head?, c.isDigit = false

/-- A writer writes a value so that its text tells the value from others, and where the text ends. -/
def TellsApart {α : Type} (write : α → List Char) (admits : α → Prop) (a : α) : Prop :=
  ∀ {b rest rest'}, admits b → EndsNumber rest → EndsNumber rest' → write a ++ rest = write b ++ rest' →
    a = b ∧ rest = rest'

section Numbers

variable {rest rest' : List Char}

/-- What is taken off a text ends where a character of another kind stands. -/
theorem takeWhile_append_of_head {p : Char → Bool} {front : List Char} (hfront : ∀ c ∈ front, p c = true)
    (h : ∀ c ∈ rest.head?, p c = false) : (front ++ rest).takeWhile p = front := by
  rw [List.takeWhile_append_of_pos hfront]
  cases rest with
  | nil => simp
  | cons c cs => rw [List.takeWhile_cons_of_neg (by simp [h c rfl]), List.append_nil]

theorem takeWhile_toDigits (n : Nat) (h : EndsNumber rest) :
    (Nat.toDigits 10 n ++ rest).takeWhile Char.isDigit = Nat.toDigits 10 n :=
  takeWhile_append_of_head (fun _ => Nat.isDigit_of_mem_toDigits (by decide) (by decide)) h

/-- The digits of a number tell the number, and where they end. -/
theorem toDigits_append_inj {m n : Nat} (h : EndsNumber rest) (h' : EndsNumber rest')
    (heq : Nat.toDigits 10 m ++ rest = Nat.toDigits 10 n ++ rest') : m = n ∧ rest = rest' := by
  have hdigits : Nat.toDigits 10 m = Nat.toDigits 10 n := by
    rw [← takeWhile_toDigits m h, heq, takeWhile_toDigits n h']
  rw [hdigits] at heq
  exact ⟨toDigits_ten_injective hdigits, List.append_cancel_left heq⟩

theorem toList_toString_ofNat (n : Nat) : (toString (Int.ofNat n)).toList = Nat.toDigits 10 n := by
  rw [Int.toString_eq_repr, Int.repr, Nat.repr_eq_ofList_toDigits, String.toList_ofList]

theorem toList_toString_negSucc (n : Nat) :
    (toString (Int.negSucc n)).toList = '-' :: Nat.toDigits 10 (n + 1) := by
  rw [Int.toString_eq_repr, Int.repr, String.toList_append, Nat.repr_eq_ofList_toDigits, String.toList_ofList,
    String.toList_ofList]
  rfl

theorem exists_toDigits_eq_cons (n : Nat) : ∃ c cs, Nat.toDigits 10 n = c :: cs ∧ c.isDigit = true := by
  obtain ⟨c, cs, hdigits⟩ := List.exists_cons_of_ne_nil (@Nat.toDigits_ne_nil n 10)
  exact ⟨c, cs, hdigits, Nat.isDigit_of_mem_toDigits (by decide) (by decide) (hdigits ▸ List.mem_cons_self)⟩

theorem toDigits_append_ne {n : Nat} {text : List Char} : Nat.toDigits 10 n ++ rest ≠ '-' :: text := by
  obtain ⟨c, cs, hdigits, hc⟩ := exists_toDigits_eq_cons n
  intro h
  rw [hdigits, List.cons_append] at h
  rw [(List.cons.inj h).1] at hc
  cases hc

/-- A whole number tells itself, and where it ends. -/
theorem toString_append_inj {i j : Int} (h : EndsNumber rest) (h' : EndsNumber rest')
    (heq : (toString i).toList ++ rest = (toString j).toList ++ rest') : i = j ∧ rest = rest' := by
  cases i with
  | ofNat m =>
    cases j with
    | ofNat n =>
      rw [toList_toString_ofNat, toList_toString_ofNat] at heq
      exact (toDigits_append_inj h h' heq).imp_left (congrArg Int.ofNat)
    | negSucc n =>
      rw [toList_toString_ofNat, toList_toString_negSucc] at heq
      exact absurd heq toDigits_append_ne
  | negSucc m =>
    cases j with
    | ofNat n =>
      rw [toList_toString_ofNat, toList_toString_negSucc] at heq
      exact absurd heq.symm toDigits_append_ne
    | negSucc n =>
      rw [toList_toString_negSucc, toList_toString_negSucc] at heq
      exact (toDigits_append_inj h h' (List.cons.inj heq).2).imp_left fun hmn => by rw [Nat.succ.inj hmn]

end Numbers

/-! ## Parts of lists and objects -/

section Parts

variable {α : Type} {write : α → List Char} {admits : α → Prop} {rest rest' : List Char}

/-- The parts behind the first one, each behind a comma. -/
def moreParts (write : α → List Char) : List α → List Char
  | [] => []
  | x :: xs => ',' :: (write x ++ moreParts write xs)

theorem endsNumber_moreParts (xs : List α) (rest : List Char) : EndsNumber (moreParts write xs ++ '\n' :: rest) := by
  cases xs <;> simp [moreParts, EndsNumber]

/-- Parts that are told apart one by one are told apart as a list, up to the line behind them. -/
theorem moreParts_append_inj : ∀ {xs ys : List α}, (∀ x ∈ xs, TellsApart write admits x) → (∀ y ∈ ys, admits y) →
    moreParts write xs ++ '\n' :: rest = moreParts write ys ++ '\n' :: rest' → xs = ys ∧ rest = rest'
  | [], [], _, _, heq => ⟨rfl, (List.cons.inj heq).2⟩
  | [], _ :: _, _, _, heq => by cases heq
  | _ :: _, [], _, _, heq => by cases heq
  | x :: xs, y :: ys, hx, hy, heq => by
    obtain ⟨hx, hxs⟩ := List.forall_mem_cons.mp hx
    obtain ⟨hy, hys⟩ := List.forall_mem_cons.mp hy
    rw [moreParts, moreParts, List.cons_append, List.cons_append, List.append_assoc, List.append_assoc] at heq
    obtain ⟨rfl, hrest⟩ := hx hy (endsNumber_moreParts xs rest) (endsNumber_moreParts ys rest') (List.cons.inj heq).2
    exact (moreParts_append_inj hxs hys hrest).imp_left (congrArg (x :: ·))

/-- Parts between two marks: on the same line if there are none, and each on its own line otherwise. -/
def enclosed (write : α → List Char) (depth : Nat) (opening closing : Char) : List α → List Char
  | [] => [opening, closing]
  | x :: xs => opening :: (write x ++ moreParts write xs ++ newLine depth ++ [closing])

/-- Parts that are told apart one by one, each on its own line, are told apart between marks. -/
theorem enclosed_append_inj {depth : Nat} {opening closing : Char} (hline : ∀ a, ∃ cs, write a = '\n' :: cs)
    (hclosing : closing ≠ '\n') : ∀ {xs ys : List α}, (∀ x ∈ xs, TellsApart write admits x) → (∀ y ∈ ys, admits y) →
    enclosed write depth opening closing xs ++ rest = enclosed write depth opening closing ys ++ rest' →
    xs = ys ∧ rest = rest'
  | [], [], _, _, heq => ⟨rfl, List.append_cancel_left heq⟩
  | [], y :: _, _, _, heq => by
    obtain ⟨cs, hcs⟩ := hline y
    rw [enclosed, enclosed, hcs] at heq
    exact absurd (List.cons.inj (List.cons.inj heq).2).1 hclosing
  | x :: _, [], _, _, heq => by
    obtain ⟨cs, hcs⟩ := hline x
    rw [enclosed, enclosed, hcs] at heq
    exact absurd (List.cons.inj (List.cons.inj heq).2).1.symm hclosing
  | x :: xs, y :: ys, hx, hy, heq => by
    have hparts : ∀ (z : α) (zs : List α) (tail : List Char), enclosed write depth opening closing (z :: zs) ++ tail =
        opening :: (write z ++ moreParts write zs ++
          '\n' :: (List.replicate (2 * depth) ' ' ++ [closing] ++ tail)) := by
      intro z zs tail
      simp only [enclosed, newLine, List.append_assoc, List.cons_append]
    rw [hparts, hparts] at heq
    obtain ⟨hsame, hrest⟩ := moreParts_append_inj hx hy (congrArg (',' :: ·) (List.cons.inj heq).2)
    exact ⟨hsame, List.append_cancel_left hrest⟩

end Parts

section Lines

variable {admits : Value → Prop}

/-- An element on its line. -/
def elementLine (depth : Nat) (x : Value) : List Char := newLine depth ++ prettyChars depth x

/-- A member on its line. -/
def memberLine (depth : Nat) (member : String × Value) : List Char :=
  newLine depth ++ (writeString member.1 ++ ':' :: ' ' :: prettyChars depth member.2)

theorem prettyElements_cons (depth : Nat) (x : Value) : ∀ xs : List Value,
    prettyElements depth (x :: xs) = elementLine depth x ++ moreParts (elementLine depth) xs
  | [] => (List.append_nil _).symm
  | y :: ys => by
    rw [prettyElements, prettyElements_cons depth y ys, moreParts, elementLine.eq_1 depth x]
    exact List.cons_ne_nil _ _

theorem prettyMembers_cons (depth : Nat) (member : String × Value) : ∀ members : List (String × Value),
    prettyMembers depth (member :: members) = memberLine depth member ++ moreParts (memberLine depth) members
  | [] => by rw [prettyMembers, moreParts, List.append_nil, memberLine, List.append_assoc]
  | other :: members => by
    rw [prettyMembers, prettyMembers_cons depth other members, moreParts, memberLine.eq_1 depth member]
    · simp only [List.append_assoc, List.cons_append]
    · exact List.cons_ne_nil _ _

theorem prettyChars_array (depth : Nat) (elements : List Value) :
    prettyChars depth (.array elements) = enclosed (elementLine (depth + 1)) depth '[' ']' elements := by
  cases elements with
  | nil => rfl
  | cons x xs =>
    rw [prettyChars, prettyElements_cons, enclosed]
    exact List.cons_ne_nil _ _

theorem prettyChars_object (depth : Nat) (members : List (String × Value)) :
    prettyChars depth (.object members) = enclosed (memberLine (depth + 1)) depth '\x7b' '\x7d' members := by
  cases members with
  | nil => rfl
  | cons member members =>
    rw [prettyChars, prettyMembers_cons, enclosed]
    exact List.cons_ne_nil _ _

theorem tellsApart_elementLine {depth : Nat} {x : Value} (h : TellsApart (prettyChars depth) admits x) :
    TellsApart (elementLine depth) admits x := by
  intro y rest rest' hy hrest hrest' heq
  rw [elementLine, elementLine, List.append_assoc, List.append_assoc] at heq
  exact h hy hrest hrest' (List.append_cancel_left heq)

theorem tellsApart_memberLine {depth : Nat} {member : String × Value}
    (h : TellsApart (prettyChars depth) admits member.2) :
    TellsApart (memberLine depth) (fun other => admits other.2) member := by
  intro other rest rest' hother hrest hrest' heq
  simp only [memberLine, List.append_assoc, List.cons_append] at heq
  obtain ⟨hkey, heq⟩ := writeString_append_inj (List.append_cancel_left heq)
  obtain ⟨hvalue, heq⟩ := h hother hrest hrest' (List.cons.inj (List.cons.inj heq).2).2
  exact ⟨Prod.ext hkey hvalue, heq⟩

end Lines

/-! ## Values -/

/-- The kind of the value whose text begins with a character. -/
def kindOf (c : Char) : String :=
  match c with
  | 'n' => "null"
  | 't' => "boolean"
  | 'f' => "boolean"
  | '"' => "string"
  | '[' => "array"
  | '\x7b' => "object"
  | _ => "number"

theorem kindOf_eq_number {c : Char} (h : c.isDigit = true ∨ c = '-') : kindOf c = "number" := by
  unfold kindOf
  split <;> simp_all

theorem kindOf_toString (i : Int) : ∃ c cs, (toString i).toList = c :: cs ∧ kindOf c = "number" := by
  cases i with
  | ofNat n =>
    obtain ⟨c, cs, hdigits, hc⟩ := exists_toDigits_eq_cons n
    exact ⟨c, cs, (toList_toString_ofNat n).trans hdigits, kindOf_eq_number (Or.inl hc)⟩
  | negSucc n => exact ⟨'-', _, toList_toString_negSucc n, rfl⟩

/-- **The first character tells the kind.** -/
theorem kindOf_prettyChars (depth : Nat) {v : Value} (h : v.lacksFloats = true) :
    ∃ c cs, v.prettyChars depth = c :: cs ∧ kindOf c = v.kindName := by
  cases v with
  | null => exact ⟨'n', _, rfl, rfl⟩
  | bool b =>
    cases b with
    | true => exact ⟨'t', _, rfl, rfl⟩
    | false => exact ⟨'f', _, rfl, rfl⟩
  | integer i => exact kindOf_toString i
  | float x => cases h
  | string s => exact ⟨'"', _, rfl, rfl⟩
  | array elements => cases elements <;> exact ⟨'[', _, rfl, rfl⟩
  | object members => cases members <;> exact ⟨'\x7b', _, rfl, rfl⟩

theorem kindName_eq {depth : Nat} {v w : Value} {rest rest' : List Char} (hv : v.lacksFloats = true)
    (hw : w.lacksFloats = true) (heq : v.prettyChars depth ++ rest = w.prettyChars depth ++ rest') :
    v.kindName = w.kindName := by
  obtain ⟨c, cs, hc, hkind⟩ := kindOf_prettyChars depth hv
  obtain ⟨d, ds, hd, hkind'⟩ := kindOf_prettyChars depth hw
  rw [hc, hd] at heq
  rw [← hkind, ← hkind', (List.cons.inj heq).1]

/-- **The text of a value without floats tells the value, and where it ends.** -/
theorem prettyChars_append_inj (v : Value) : ∀ depth, v.lacksFloats = true →
    TellsApart (prettyChars depth) (fun w => w.lacksFloats = true) v := by
  induction v using partInduction with
  | array elements ih =>
    intro depth hv w rest rest' hw hrest hrest' heq
    have hkind := kindName_eq hv hw heq
    cases w with
    | array others =>
      rw [prettyChars_array, prettyChars_array] at heq
      rw [lacksFloats_array] at hv hw
      refine (enclosed_append_inj (fun a => ⟨_, rfl⟩) (by decide) (fun x hx => ?_) hw heq).imp_left (congrArg array)
      exact tellsApart_elementLine (ih x hx (depth + 1) (hv x hx))
    | _ => simp [kindName] at hkind
  | object members ih =>
    intro depth hv w rest rest' hw hrest hrest' heq
    have hkind := kindName_eq hv hw heq
    cases w with
    | object others =>
      rw [prettyChars_object, prettyChars_object] at heq
      rw [lacksFloats_object] at hv hw
      refine (enclosed_append_inj (fun a => ⟨_, rfl⟩) (by decide) (fun x hx => ?_) hw heq).imp_left (congrArg object)
      exact tellsApart_memberLine (ih x hx (depth + 1) (hv x hx))
    | _ => simp [kindName] at hkind
  | leaf v harray hobject =>
    intro depth hv w rest rest' hw hrest hrest' heq
    have hkind := kindName_eq hv hw heq
    cases v with
    | null =>
      cases w with
      | null => exact ⟨rfl, List.append_cancel_left heq⟩
      | _ => simp [kindName] at hkind
    | bool b =>
      cases w with
      | bool c =>
        have hbools : b = c := by
          cases b <;> cases c
          case false.false | true.true => rfl
          case false.true | true.false => exact absurd (List.cons.inj heq).1 (by decide)
        exact ⟨congrArg bool hbools, List.append_cancel_left (hbools ▸ heq)⟩
      | _ => simp [kindName] at hkind
    | integer i =>
      cases w with
      | integer j => exact (toString_append_inj hrest hrest' heq).imp_left (congrArg integer)
      | float x => cases hw
      | _ => simp [kindName] at hkind
    | float x => cases hv
    | string s =>
      cases w with
      | string t => exact (writeString_append_inj heq).imp_left (congrArg string)
      | _ => simp [kindName] at hkind
    | array elements => exact absurd rfl (harray elements)
    | object members => exact absurd rfl (hobject members)

theorem prettyChars_inj {v w : Value} {depth : Nat} (hv : v.lacksFloats = true) (hw : w.lacksFloats = true)
    (h : v.prettyChars depth = w.prettyChars depth) : v = w :=
  have hend : EndsNumber [] := fun _ hc => by cases hc
  (prettyChars_append_inj v depth hv hw hend hend (congrArg (· ++ []) h)).1

end Value

end TypedSettings
