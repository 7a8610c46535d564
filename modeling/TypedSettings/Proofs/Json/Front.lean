import Mathlib.Data.List.TakeWhile
import TypedSettings.Proofs.Json.Grammar

/-!
# The front of a text

The tree that a text begins with stands in a front of the text, and a text begins with this tree whatever stands behind
the front (`standsInFront_begins`). Only a number would go on with the characters that numbers are made of; inside a list
or an object a mark stands behind it, so that a list or an object ends where it does (`Parts.exists_front`).
-/

namespace TypedSettings.Json

variable {text rest : List Char}

/-! ## Strings -/

theorem Escape.exists_front {c : Char} (h : Escape text c rest) :
    ∃ front, text = front ++ rest ∧ ∀ rest', Escape (front ++ rest') c rest' := by
  cases h with
  | letter hletter => exact ⟨[_], rfl, fun _ => .letter hletter⟩
  | unit hunit => exact ⟨[_, _, _, _, _], rfl, fun _ => .unit hunit⟩
  | pair hunit hunit' hleading htrailing hc =>
    exact ⟨[_, _, _, _, _, _, _, _, _, _, _], rfl, fun _ => .pair hunit hunit' hleading htrailing hc⟩

theorem Chars.exists_front {cs : List Char} (h : Chars text cs rest) :
    ∃ front, text = front ++ rest ∧ ∀ rest', Chars (front ++ rest') cs rest' := by
  induction h with
  | close => exact ⟨['"'], rfl, fun _ => .close⟩
  | @plain c _ _ _ hquote hslash hcontrol _ ih =>
    obtain ⟨front, rfl, hfront⟩ := ih
    exact ⟨c :: front, rfl, fun rest' => .plain hquote hslash hcontrol (hfront rest')⟩
  | escape hescape _ ih =>
    obtain ⟨front, rfl, hfront⟩ := ih
    obtain ⟨escape, rfl, hescaped⟩ := hescape.exists_front
    refine ⟨'\\' :: (escape ++ front), by rw [List.cons_append, List.append_assoc], fun rest' => ?_⟩
    rw [List.cons_append, List.append_assoc]
    exact .escape (hescaped _) (hfront rest')

/-! ## Blanks -/

theorem skipBlanks_cons {c : Char} (h : isBlank c = false) : skipBlanks (c :: text) = c :: text :=
  List.dropWhile_cons_of_neg (by simp [h])

/-- The blanks in front of a text are skipped whatever stands behind them. -/
theorem exists_blanks (text : List Char) :
    ∃ blanks, text = blanks ++ skipBlanks text ∧ ∀ more, skipBlanks (blanks ++ more) = skipBlanks more := by
  refine ⟨text.takeWhile isBlank, List.takeWhile_append_dropWhile.symm, fun more => ?_⟩
  exact List.dropWhile_append_of_pos fun c => List.mem_takeWhile_imp

theorem skipBlanks_append_of_eq_nil {blanks : List Char} (h : skipBlanks blanks = []) (text : List Char) :
    skipBlanks (blanks ++ text) = skipBlanks text := by
  obtain ⟨front, heq, hfront⟩ := exists_blanks blanks
  rw [h, List.append_nil] at heq
  rw [heq, hfront]

/-- No character that numbers are made of stands at the front of a text. -/
def EndsNumeric (text : List Char) : Prop := ∀ c ∈ text.head?, isNumeric c = false

theorem isNumeric_of_isBlank {c : Char} (h : isBlank c = true) : isNumeric c = false := by
  simp only [isBlank, Bool.or_eq_true, beq_iff_eq] at h
  rcases h with ((rfl | rfl) | rfl) | rfl <;> decide

theorem endsNumeric_of_skipBlanks {c : Char} (h : skipBlanks text = c :: rest) (hc : isNumeric c = false) :
    EndsNumeric text := by
  intro d hd
  cases text with
  | nil => cases hd
  | cons e text =>
    cases hd
    cases hblank : isBlank d with
    | true => exact isNumeric_of_isBlank hblank
    | false =>
      rw [skipBlanks_cons hblank] at h
      rwa [(List.cons.inj h).1]

/-! ## Parts -/

section Parts

variable {α : Type} {closing : Char} {part : List Char → α → List Char → Prop}

/-- A part that begins a text stands in a front of it, whatever stands behind the front of what may follow. -/
def StandsInFront (part : List Char → α → List Char → Prop) (follows : List Char → Prop) (x : α) : Prop :=
  ∀ {text rest}, part text x rest → ∃ c front, isBlank c = false ∧ text = c :: (front ++ rest) ∧
    ∀ rest', follows rest' → part (c :: (front ++ rest')) x rest'

theorem StandsInFront.imp {follows follows' : List Char → Prop} {x : α} (h : StandsInFront part follows x)
    (hfollows : ∀ rest, follows' rest → follows rest) : StandsInFront part follows' x := by
  intro text rest hx
  obtain ⟨c, front, hc, htext, hfront⟩ := h hx
  exact ⟨c, front, hc, htext, fun rest' hrest => hfront rest' (hfollows rest' hrest)⟩

theorem Parts.endsNumeric (hclosing : isNumeric closing = false) {xs : List α}
    (h : Parts closing part false text xs rest) : EndsNumeric text := by
  cases h with
  | close hclose => exact endsNumeric_of_skipBlanks hclose hclosing
  | later hcomma _ _ => exact endsNumeric_of_skipBlanks hcomma (by decide)

/-- Parts stand in a front of a text up to their closing mark. -/
theorem Parts.exists_front (hblank : isBlank closing = false) (hclosing : isNumeric closing = false) {first : Bool}
    {xs : List α} (h : Parts closing part first text xs rest) (hparts : ∀ x ∈ xs, StandsInFront part EndsNumeric x) :
    ∃ front, text = front ++ rest ∧ ∀ rest', Parts closing part first (front ++ rest') xs rest' := by
  induction h with
  | @close _ text rest hclose =>
    obtain ⟨blanks, htext, hblanks⟩ := exists_blanks text
    rw [hclose] at htext
    refine ⟨blanks ++ [closing], by rw [htext, List.append_assoc]; rfl, fun rest' => .close ?_⟩
    rw [List.append_assoc, hblanks, List.singleton_append, skipBlanks_cons hblank]
  | @first text _ _ x _ hpart _ ih =>
    obtain ⟨hx, hxs⟩ := List.forall_mem_cons.mp hparts
    obtain ⟨more, rfl, hmore⟩ := ih hxs
    obtain ⟨c, front, hc, htext', hfront⟩ := hx hpart
    obtain ⟨blanks, htext, hblanks⟩ := exists_blanks text
    rw [htext'] at htext
    refine ⟨blanks ++ c :: (front ++ more), by simp [htext], fun rest' => .first ?_ (hmore rest')⟩
    -- The part begins with no blank, so that the same blanks are skipped, and behind it stands a mark, not a digit.
    rw [List.append_assoc, hblanks, List.cons_append, skipBlanks_cons hc, List.append_assoc]
    exact hfront _ ((hmore rest').endsNumeric hclosing)
  | @later text start _ _ x _ hcomma hpart _ ih =>
    obtain ⟨hx, hxs⟩ := List.forall_mem_cons.mp hparts
    obtain ⟨more, rfl, hmore⟩ := ih hxs
    obtain ⟨c, front, hc, hstart', hfront⟩ := hx hpart
    obtain ⟨blanks, htext, hblanks⟩ := exists_blanks text
    obtain ⟨blanks', hstart, hblanks'⟩ := exists_blanks start
    rw [hcomma] at htext
    rw [hstart'] at hstart
    refine ⟨blanks ++ ',' :: (blanks' ++ c :: (front ++ more)), by simp [htext, hstart], fun rest' => ?_⟩
    have hskip : skipBlanks (blanks ++ ',' :: (blanks' ++ c :: (front ++ more)) ++ rest') =
        ',' :: (blanks' ++ c :: (front ++ (more ++ rest'))) := by
      rw [List.append_assoc, hblanks, List.cons_append, skipBlanks_cons (by decide), List.append_assoc,
        List.cons_append, List.append_assoc]
    refine .later hskip ?_ (hmore rest')
    rw [hblanks', skipBlanks_cons hc]
    exact hfront _ ((hmore rest').endsNumeric hclosing)

/-- A member stands in a front of a text if its value does. -/
theorem standsInFront_member {key : String} {x : α} (h : StandsInFront part EndsNumeric x) :
    StandsInFront (Member part) EndsNumeric (key, x) := by
  intro text rest hmember
  cases hmember with
  | @mk _ _ _ body behind start _ htext hkey hcolon hvalue =>
    obtain ⟨c, front, hc, hstart', hfront⟩ := h hvalue
    obtain ⟨blanks, hbehind, hblanks⟩ := exists_blanks behind
    obtain ⟨blanks', hstart, hblanks'⟩ := exists_blanks start
    obtain ⟨chars, rfl, hchars⟩ := hkey.exists_front
    rw [hcolon] at hbehind
    rw [hstart'] at hstart
    refine ⟨'"', chars ++ (blanks ++ ':' :: (blanks' ++ c :: front)), by decide, by simp [htext, hbehind, hstart],
      fun rest' hrest => ?_⟩
    have hskip : skipBlanks (blanks ++ ':' :: (blanks' ++ c :: (front ++ rest'))) =
        ':' :: (blanks' ++ c :: (front ++ rest')) := by rw [hblanks, skipBlanks_cons (by decide)]
    have hvalue : part (skipBlanks (blanks' ++ c :: (front ++ rest'))) x rest' := by
      rw [hblanks', skipBlanks_cons hc]
      exact hfront rest' hrest
    refine .mk ?_ (hchars _) hskip hvalue
    simp

end Parts

/-! ## Trees -/

theorem isBlank_of_isNumeric {c : Char} (h : isNumeric c = true) : isBlank c = false := by
  by_contra hblank
  rw [Bool.not_eq_false] at hblank
  rw [isNumeric_of_isBlank hblank] at h
  cases h

/-- What may stand behind a tree. -/
def Tree.MayPrecede (tree : Tree) (rest : List Char) : Prop := tree.kindName = "number" → EndsNumeric rest

/-- **A text begins with a tree whatever stands behind the tree**, if only a number is not gone on with. -/
theorem standsInFront_begins (tree : Tree) : StandsInFront Begins tree.MayPrecede tree := by
  induction tree using Tree.partInduction with
  | array elements ih =>
    intro text rest h
    cases h with
    | array htext hparts =>
      have helements : ∀ x ∈ elements, StandsInFront Begins EndsNumeric x :=
        fun x hmem => StandsInFront.imp (ih x hmem) fun _ hrest _ => hrest
      obtain ⟨front, rfl, hfront⟩ := hparts.exists_front (by decide) (by decide) helements
      exact ⟨'[', front, by decide, htext, fun rest' _ => .array rfl (hfront rest')⟩
  | object members ih =>
    intro text rest h
    cases h with
    | object htext hparts =>
      have hmembers : ∀ member ∈ members, StandsInFront (Member Begins) EndsNumeric member :=
        fun member hmem => standsInFront_member (StandsInFront.imp (ih member hmem) fun _ hrest _ => hrest)
      obtain ⟨front, rfl, hfront⟩ := hparts.exists_front (by decide) (by decide) hmembers
      exact ⟨'\x7b', front, by decide, htext, fun rest' _ => .object rfl (hfront rest')⟩
  | leaf tree harray hobject =>
    intro text rest h
    cases h with
    | null htext => exact ⟨'n', ['u', 'l', 'l'], by decide, htext, fun _ _ => .null rfl⟩
    | @bool b _ _ htext =>
      cases b with
      | true => exact ⟨'t', ['r', 'u', 'e'], by decide, htext, fun _ _ => .bool rfl⟩
      | false => exact ⟨'f', ['a', 'l', 's', 'e'], by decide, htext, fun _ _ => .bool rfl⟩
    | number hnumber =>
      have hdigits : ∀ c ∈ text.takeWhile isNumeric, isNumeric c = true := fun c => List.mem_takeWhile_imp
      obtain ⟨c, cs, hcs⟩ := List.exists_cons_of_ne_nil hnumber.ne_nil
      refine ⟨c, cs, isBlank_of_isNumeric (hdigits c (hcs ▸ List.mem_cons_self)), ?_, fun rest' hrest => ?_⟩
      · rw [← List.cons_append, ← hcs, List.takeWhile_append_dropWhile]
      · -- The grammar gives a number by what it takes of the text, so the text is cut at the same place again.
        have htake := Value.takeWhile_append_of_head hdigits (hrest rfl)
        have hdrop : (text.takeWhile isNumeric ++ rest').dropWhile isNumeric = rest' := by
          have hsplit := @List.takeWhile_append_dropWhile _ isNumeric (text.takeWhile isNumeric ++ rest')
          rw [htake] at hsplit
          exact List.append_cancel_left hsplit
        have hbegins := @Begins.number (text.takeWhile isNumeric ++ rest') (htake.symm ▸ hnumber)
        rw [htake, hdrop] at hbegins
        rwa [hcs] at hbegins ⊢
    | string htext hchars =>
      obtain ⟨front, rfl, hfront⟩ := hchars.exists_front
      exact ⟨'"', front, by decide, htext, fun rest' _ => .string rfl (hfront rest')⟩
    | array _ _ => exact absurd rfl harray
    | object _ _ => exact absurd rfl hobject

/-! ## Texts and their fronts -/

/-- What a text begins with is all that a front of the text says. -/
theorem Begins.exists_isText {tree : Tree} (h : Begins (skipBlanks text) tree rest) :
    ∃ front, text = front ++ rest ∧ tree.IsText front := by
  obtain ⟨c, front, hc, hstart, hfront⟩ := standsInFront_begins tree h
  obtain ⟨blanks, htext, hblanks⟩ := exists_blanks text
  rw [hstart] at htext
  refine ⟨blanks ++ c :: front, by rw [htext, List.append_assoc, List.cons_append], [], ?_, rfl⟩
  have hbegins := hfront [] fun _ => nofun
  rwa [List.append_nil, ← skipBlanks_cons hc, ← hblanks] at hbegins

/-- A text that goes on begins with what it began with. -/
theorem Begins.append {tree : Tree} {more : List Char} (h : Begins (skipBlanks text) tree rest)
    (hmore : tree.MayPrecede (rest ++ more)) : Begins (skipBlanks (text ++ more)) tree (rest ++ more) := by
  obtain ⟨c, front, hc, hstart, hfront⟩ := standsInFront_begins tree h
  obtain ⟨blanks, htext, hblanks⟩ := exists_blanks text
  rw [hstart] at htext
  rw [htext, List.append_assoc, hblanks, List.cons_append, skipBlanks_cons hc, List.append_assoc]
  exact hfront _ hmore

end TypedSettings.Json
