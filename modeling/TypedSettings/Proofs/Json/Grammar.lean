import TypedSettings.Proofs.Json.Printer
import TypedSettings.Proofs.Json.Strings

/-!
# The grammar of JSON

What a JSON text says is a tree (`Tree`), in which numbers stay as they are written and the members of an object in
their order, also where a key comes twice. The grammar is a relation between a text, the tree that it begins with, and
what stands behind the tree (`Begins`).

A text begins with one tree at most (`Begins.unique`): the first character tells the kind of a tree (`Begins.head`), and
the mark behind a part of a list or an object tells whether one more follows (`Parts.unique`).
-/

namespace TypedSettings.Json

/-- What a JSON text says. -/
inductive Tree where
  | null
  | bool (b : Bool)
  | number (digits : List Char)
  | string (s : String)
  | array (elements : List Tree)
  | object (members : List (String × Tree))

/-! ## Numbers -/

/-- The characters that numbers are made of. -/
def isNumeric (c : Char) : Bool := c.isDigit || c == '-' || c == '+' || c == '.' || c == 'e' || c == 'E'

/-- One digit or more. -/
def IsDigits (cs : List Char) : Prop := cs ≠ [] ∧ ∀ c ∈ cs, c.isDigit = true

/-- A number: a sign if it is below zero, a whole part without idle zeros, and a fraction and an exponent if it has
them. -/
def IsNumber (cs : List Char) : Prop :=
  ∃ sign whole fraction exponent, cs = sign ++ whole ++ fraction ++ exponent ∧
    (sign = [] ∨ sign = ['-']) ∧
    (whole = ['0'] ∨ IsDigits whole ∧ whole.head? ≠ some '0') ∧
    (fraction = [] ∨ ∃ digits, fraction = '.' :: digits ∧ IsDigits digits) ∧
    (exponent = [] ∨ ∃ letter signed digits, exponent = letter :: (signed ++ digits) ∧ (letter = 'e' ∨ letter = 'E') ∧
      (signed = [] ∨ signed = ['+'] ∨ signed = ['-']) ∧ IsDigits digits)

/-! ## Lists and objects -/

section Parts

variable {α : Type}

/-- A text behind the opening mark of a list or an object, or behind one of its parts, the parts up to the closing mark,
and what stands behind that. Blanks may stand in front of every part and every mark. -/
inductive Parts (closing : Char) (part : List Char → α → List Char → Prop) :
    Bool → List Char → List α → List Char → Prop
  | close {first : Bool} {text rest : List Char} : skipBlanks text = closing :: rest →
    Parts closing part first text [] rest
  | first {text behind rest : List Char} {x : α} {xs : List α} : part (skipBlanks text) x behind →
    Parts closing part false behind xs rest → Parts closing part true text (x :: xs) rest
  | later {text more behind rest : List Char} {x : α} {xs : List α} : skipBlanks text = ',' :: more →
    part (skipBlanks more) x behind → Parts closing part false behind xs rest →
    Parts closing part false text (x :: xs) rest

/-- A member of an object: a key and, behind a colon, a value. -/
inductive Member (value : List Char → α → List Char → Prop) : List Char → String × α → List Char → Prop
  | mk {key : String} {x : α} {text body behind start rest : List Char} : text = '"' :: body →
    Chars body key.toList behind → skipBlanks behind = ':' :: start → value (skipBlanks start) x rest →
    Member value text (key, x) rest

end Parts

/-- A text, the tree that it begins with, and what stands behind it. -/
inductive Begins : List Char → Tree → List Char → Prop
  | null {text rest : List Char} : text = "null".toList ++ rest → Begins text .null rest
  | bool {b : Bool} {text rest : List Char} : text = (if b then "true" else "false").toList ++ rest →
    Begins text (.bool b) rest
  /-- A number takes all characters at the front that numbers are made of. -/
  | number {text : List Char} : IsNumber (text.takeWhile isNumeric) →
    Begins text (.number (text.takeWhile isNumeric)) (text.dropWhile isNumeric)
  | string {s : String} {text body rest : List Char} : text = '"' :: body → Chars body s.toList rest →
    Begins text (.string s) rest
  | array {elements : List Tree} {text body rest : List Char} : text = '[' :: body →
    Parts ']' Begins true body elements rest → Begins text (.array elements) rest
  | object {members : List (String × Tree)} {text body rest : List Char} : text = '\x7b' :: body →
    Parts '\x7d' (Member Begins) true body members rest → Begins text (.object members) rest

/-- A tree is all that a text says, with nothing but blanks around it. -/
def Tree.IsText (tree : Tree) (text : List Char) : Prop :=
  ∃ rest, Begins (skipBlanks text) tree rest ∧ skipBlanks rest = []

/-! ## Where parts end -/

section Unique

variable {α : Type} {closing : Char} {part : List Char → α → List Char → Prop}

/-- Whatever a text begins with, if it is this part, the text begins with nothing else and the part ends there. -/
def ToldBy (part : List Char → α → List Char → Prop) (x : α) : Prop :=
  ∀ {text rest y rest'}, part text x rest → part text y rest' → x = y ∧ rest = rest'

/-- Parts that are told one by one are told as a list, if none begins like the closing mark. -/
theorem Parts.unique (hmark : closing ≠ ',') (hhead : ∀ text x rest, part text x rest → text.head? ≠ some closing)
    {first : Bool} {text rest : List Char} {xs : List α} (h : Parts closing part first text xs rest)
    (hparts : ∀ x ∈ xs, ToldBy part x) {ys : List α} {rest' : List Char}
    (h' : Parts closing part first text ys rest') : xs = ys ∧ rest = rest' := by
  induction h generalizing ys with
  | close hclose =>
    cases h' with
    | close hclose' => exact ⟨rfl, (List.cons.inj (hclose.symm.trans hclose')).2⟩
    | first hpart _ => exact absurd (by rw [hclose]; rfl) (hhead _ _ _ hpart)
    | later hcomma _ _ => exact absurd (List.cons.inj (hclose.symm.trans hcomma)).1 hmark
  | first hpart _ ih =>
    obtain ⟨hx, hxs⟩ := List.forall_mem_cons.mp hparts
    cases h' with
    | close hclose => exact absurd (by rw [hclose]; rfl) (hhead _ _ _ hpart)
    | first hpart' hmore' =>
      obtain ⟨rfl, rfl⟩ := hx hpart hpart'
      exact (ih hxs hmore').imp_left (congrArg _)
  | later hcomma hpart _ ih =>
    obtain ⟨hx, hxs⟩ := List.forall_mem_cons.mp hparts
    cases h' with
    | close hclose => exact absurd (List.cons.inj (hclose.symm.trans hcomma)).1 hmark
    | later hcomma' hpart' hmore' =>
      obtain rfl := (List.cons.inj (hcomma.symm.trans hcomma')).2
      obtain ⟨rfl, rfl⟩ := hx hpart hpart'
      exact (ih hxs hmore').imp_left (congrArg _)

/-- A member is told by its value. -/
theorem toldBy_member {key : String} {x : α} (h : ToldBy part x) : ToldBy (Member part) (key, x) := by
  intro text rest other rest' hmember hmember'
  cases hmember with
  | mk htext hkey hcolon hvalue =>
    cases hmember' with
    | mk htext' hkey' hcolon' hvalue' =>
      obtain rfl := (List.cons.inj (htext.symm.trans htext')).2
      obtain ⟨hkeys, rfl⟩ := hkey.unique hkey'
      obtain rfl := (List.cons.inj (hcolon.symm.trans hcolon')).2
      obtain ⟨rfl, rfl⟩ := h hvalue hvalue'
      exact ⟨Prod.ext (String.toList_inj.mp hkeys) rfl, rfl⟩

/-- Parts that are related to others one by one stand where the others do. -/
theorem parts_exists_iff {β : Type} {R : α → β → Prop} {first : Bool} {text rest : List Char} {ys : List β} :
    Parts closing (fun text y rest => ∃ x, R x y ∧ part text x rest) first text ys rest ↔
      ∃ xs, List.Forall₂ R xs ys ∧ Parts closing part first text xs rest := by
  constructor
  · intro h
    induction h with
    | close hclose => exact ⟨[], .nil, .close hclose⟩
    | first hpart _ ih =>
      obtain ⟨x, hx, hpart⟩ := hpart
      obtain ⟨xs, hxs, hparts⟩ := ih
      exact ⟨x :: xs, .cons hx hxs, .first hpart hparts⟩
    | later hcomma hpart _ ih =>
      obtain ⟨x, hx, hpart⟩ := hpart
      obtain ⟨xs, hxs, hparts⟩ := ih
      exact ⟨x :: xs, .cons hx hxs, .later hcomma hpart hparts⟩
  · rintro ⟨xs, hxs, hparts⟩
    induction hparts generalizing ys with
    | close hclose =>
      cases hxs
      exact .close hclose
    | first hpart _ ih =>
      cases hxs with
      | cons hx hxs => exact .first ⟨_, hx, hpart⟩ (ih hxs)
    | later hcomma hpart _ ih =>
      cases hxs with
      | cons hx hxs => exact .later hcomma ⟨_, hx, hpart⟩ (ih hxs)

end Unique

/-! ## Trees -/

namespace Tree

/-- The name of a tree's kind, as that of the value it says. -/
def kindName : Tree → String
  | .null => "null"
  | .bool _ => "boolean"
  | .number _ => "number"
  | .string _ => "string"
  | .array _ => "array"
  | .object _ => "object"

/-- What holds of a list whenever it holds of its elements, of an object whenever it holds of its members' values, and
of every tree of another kind, holds of every tree. -/
theorem partInduction {P : Tree → Prop} (array : ∀ elements, (∀ x ∈ elements, P x) → P (.array elements))
    (object : ∀ members, (∀ member ∈ members, P member.2) → P (.object members))
    (leaf : ∀ tree, tree.kindName ≠ "array" → tree.kindName ≠ "object" → P tree) : ∀ tree, P tree
  | .array elements => array elements fun x _ => partInduction array object leaf x
  | .object members => object members fun member _ => partInduction array object leaf member.2
  | .null => leaf _ (by simp [kindName]) (by simp [kindName])
  | .bool _ => leaf _ (by simp [kindName]) (by simp [kindName])
  | .number _ => leaf _ (by simp [kindName]) (by simp [kindName])
  | .string _ => leaf _ (by simp [kindName]) (by simp [kindName])
termination_by tree => sizeOf tree
decreasing_by
  · rename_i hmem
    have hlt := List.sizeOf_lt_of_mem hmem
    simp only [Tree.array.sizeOf_spec]
    omega
  · rename_i hmem
    have hlt := List.sizeOf_lt_of_mem hmem
    obtain ⟨key, tree⟩ := member
    simp only [Prod.mk.sizeOf_spec] at hlt
    simp only [Tree.object.sizeOf_spec]
    omega

end Tree

variable {text rest rest' : List Char} {tree tree' : Tree}

theorem IsNumber.ne_nil {cs : List Char} (h : IsNumber cs) : cs ≠ [] := by
  obtain ⟨sign, whole, fraction, exponent, rfl, -, hwhole, -⟩ := h
  have hne : whole ≠ [] := by
    rcases hwhole with rfl | ⟨hdigits, -⟩
    · exact List.cons_ne_nil _ _
    · exact hdigits.1
  simp [hne]

/-- **The first character tells the kind of a tree**, and closes no list. -/
theorem Begins.head (h : Begins text tree rest) :
    ∃ c cs, text = c :: cs ∧ Value.kindOf c = tree.kindName ∧ c ≠ ']' := by
  cases h with
  | null htext => exact ⟨'n', _, htext, rfl, by decide⟩
  | @bool b _ _ htext =>
    cases b with
    | true => exact ⟨'t', _, htext, rfl, by decide⟩
    | false => exact ⟨'f', _, htext, rfl, by decide⟩
  | number hnumber =>
    cases text with
    | nil => exact absurd rfl hnumber.ne_nil
    | cons c cs =>
      have hc : isNumeric c = true := by
        by_contra hc
        exact hnumber.ne_nil (List.takeWhile_cons_of_neg hc)
      refine ⟨c, cs, rfl, ?_, ?_⟩
      · unfold Value.kindOf
        split
        case h_7 => rfl
        all_goals cases hc
      · rintro rfl
        cases hc
  | string htext _ => exact ⟨'"', _, htext, rfl, by decide⟩
  | array htext _ => exact ⟨'[', _, htext, rfl, by decide⟩
  | object htext _ => exact ⟨'\x7b', _, htext, rfl, by decide⟩

theorem Begins.head?_ne (h : Begins text tree rest) : text.head? ≠ some ']' := by
  obtain ⟨c, cs, rfl, -, hc⟩ := h.head
  exact fun heq => hc (Option.some.inj heq)

theorem Begins.kindName_eq (h : Begins text tree rest) (h' : Begins text tree' rest') :
    tree.kindName = tree'.kindName := by
  obtain ⟨c, cs, htext, hkind, -⟩ := h.head
  obtain ⟨c', cs', htext', hkind', -⟩ := h'.head
  rw [← hkind, ← hkind', (List.cons.inj (htext.symm.trans htext')).1]

theorem Member.head?_eq {α : Type} {value : List Char → α → List Char → Prop} {member : String × α}
    (h : Member value text member rest) : text.head? = some '"' := by
  cases h with
  | mk htext _ _ _ => rw [htext]; rfl

/-- Every tree is told by the text that begins with it. -/
theorem toldBy_begins (tree : Tree) : ToldBy Begins tree := by
  induction tree using Tree.partInduction with
  | array elements ih =>
    intro text rest tree' rest' h h'
    -- Both trees are told by the same first character, so the other one is of the same kind.
    have hkind := h.kindName_eq h'
    cases h with
    | array htext hparts =>
      cases h' with
      | array htext' hparts' =>
        obtain rfl := (List.cons.inj (htext.symm.trans htext')).2
        exact (hparts.unique (by decide) (fun _ _ _ => Begins.head?_ne) ih hparts').imp_left (congrArg _)
      | _ => simp [Tree.kindName] at hkind
  | object members ih =>
    intro text rest tree' rest' h h'
    have hkind := h.kindName_eq h'
    cases h with
    | object htext hparts =>
      cases h' with
      | object htext' hparts' =>
        obtain rfl := (List.cons.inj (htext.symm.trans htext')).2
        have hhead : ∀ text (member : String × Tree) rest, Member Begins text member rest →
            text.head? ≠ some '\x7d' := fun _ _ _ hmember => by rw [hmember.head?_eq]; decide
        have hmembers : ∀ member ∈ members, ToldBy (Member Begins) member :=
          fun member hmem => toldBy_member (ih member hmem)
        exact (hparts.unique (by decide) hhead hmembers hparts').imp_left (congrArg _)
      | _ => simp [Tree.kindName] at hkind
  | leaf tree harray hobject =>
    intro text rest tree' rest' h h'
    have hkind := h.kindName_eq h'
    cases h with
    | null htext =>
      cases h' with
      | null htext' => exact ⟨rfl, List.append_cancel_left (htext.symm.trans htext')⟩
      | _ => simp [Tree.kindName] at hkind
    | @bool b _ _ htext =>
      cases h' with
      | @bool b' _ _ htext' =>
        have hbools : b = b' := by
          cases b <;> cases b'
          case false.false | true.true => rfl
          case false.true | true.false => exact absurd (List.cons.inj (htext.symm.trans htext')).1 (by decide)
        subst hbools
        exact ⟨rfl, List.append_cancel_left (htext.symm.trans htext')⟩
      | _ => simp [Tree.kindName] at hkind
    | number _ =>
      cases h' with
      | number _ => exact ⟨rfl, rfl⟩
      | _ => simp [Tree.kindName] at hkind
    | string htext hchars =>
      cases h' with
      | string htext' hchars' =>
        obtain rfl := (List.cons.inj (htext.symm.trans htext')).2
        exact (hchars.unique hchars').imp_left fun heq => congrArg _ (String.toList_inj.mp heq)
      | _ => simp [Tree.kindName] at hkind
    | array _ _ => exact absurd rfl harray
    | object _ _ => exact absurd rfl hobject

/-- **A text begins with one tree at most**, and the tree ends at one place. -/
theorem Begins.unique (h : Begins text tree rest) (h' : Begins text tree' rest') : tree = tree' ∧ rest = rest' :=
  toldBy_begins tree h h'

/-! ## Written strings and members -/

/-- A text begins with the string that is written at its front. -/
theorem begins_writeChars (s : String) (rest : List Char) :
    Begins ('"' :: (s.toList.flatMap writeChar ++ '"' :: rest)) (.string s) rest :=
  .string rfl (chars_flatMap_writeChar _ _)

/-- A text begins with the member whose key is written at its front, if its value stands behind a colon and a blank. -/
theorem member_writeChars (key : String) {value rest : List Char} {tree : Tree}
    (h : Begins (skipBlanks value) tree rest) :
    Member Begins ('"' :: (key.toList.flatMap writeChar ++ '"' :: ':' :: ' ' :: value)) (key, tree) rest :=
  .mk rfl (chars_flatMap_writeChar _ _) rfl h

end TypedSettings.Json
