import Mathlib.Data.List.Basic
import Mathlib.Tactic.SplitIfs
import TypedSettings.Path

/-!
# Paths of entries

The parts of the path of an entry are those of its directory with the name behind them (`parts_child`), where the name
holds no slash. So the path above that of an entry is the same for all entries of the directory (`parent?_child`), and
different names make different paths (`child_inj`).
-/

namespace TypedSettings.Path

/-! ## Parts -/

/-- The characters of a path without the slash at its front. -/
def body : List Char → List Char
  | '/' :: cs => cs
  | cs => cs

/-- The parts that characters make. -/
def partsOf (cs : List Char) : List String :=
  if cs = [] then [] else ((body cs).splitOn '/').map String.ofList

theorem body_of_ne {cs : List Char} (h : ∀ rest, cs ≠ '/' :: rest) : body cs = cs := body.eq_2 cs h

theorem body_append {cs : List Char} (h : cs ≠ []) (more : List Char) : body (cs ++ more) = body cs ++ more := by
  cases cs with
  | nil => exact absurd rfl h
  | cons c cs =>
    by_cases hc : c = '/'
    · rw [hc]
      rfl
    · have hne (rest more : List Char) : c :: rest ≠ '/' :: more := fun heq => hc (List.cons.inj heq).1
      rw [body_of_ne (hne cs), List.cons_append, body_of_ne (hne _)]

theorem parts_eq (path : Path) : path.parts = partsOf path.text.toList := by
  rw [parts, partsOf]
  split
  · rename_i hnil
    rw [if_pos hnil]
  · rename_i cs heq
    rw [heq, if_neg (List.cons_ne_nil _ _), body]
  · rename_i hnil hslash
    rw [if_neg hnil, body_of_ne hslash]

/-- A slash parts what is behind it from what is in front of it. -/
theorem partsOf_slash (front back : List Char) :
    partsOf (front ++ '/' :: back) = partsOf front ++ (back.splitOn '/').map String.ofList := by
  have hne : front ++ '/' :: back ≠ [] := List.append_ne_nil_of_right_ne_nil _ (List.cons_ne_nil _ _)
  rw [partsOf, if_neg hne, partsOf]
  split_ifs with hfront
  · rw [hfront]
    rfl
  · rw [body_append hfront, ← List.map_append]
    exact congrArg (List.map String.ofList) (List.splitOnP_append_cons _ _ (beq_self_eq_true '/'))

/-- A name that makes a path of one part. -/
structure IsPart (name : String) : Prop where
  not_idle : isIdle name = false
  no_slash : '/' ∉ name.toList

section Part

variable {name : String}

theorem IsPart.toList_ne_nil (h : IsPart name) : name.toList ≠ [] := by
  intro hnil
  have hidle := h.not_idle
  rw [String.toList_eq_nil_iff.mp hnil] at hidle
  cases hidle

theorem IsPart.ne_slash (h : IsPart name) (cs : List Char) : name.toList ≠ '/' :: cs := fun heq =>
  h.no_slash (heq ▸ List.mem_cons_self)

theorem IsPart.splitOn (h : IsPart name) : (name.toList.splitOn '/').map String.ofList = [name] := by
  have hchars : ∀ c ∈ name.toList, (c == '/') = false := fun c hc =>
    beq_eq_false_iff_ne.mpr fun heq => h.no_slash (heq ▸ hc)
  rw [List.splitOn, List.splitOnP_eq_singleton hchars, List.map_singleton, String.ofList_toList]

end Part

/-! ## Entries -/

/-- The characters in front of the names in the paths of entries. -/
def ahead (folder : Path) : List Char :=
  if folder.text.toList = [] ∨ folder.text.toList.getLast? = some '/' then folder.text.toList
  else folder.text.toList ++ ['/']

/-- The parts of the path of a directory, without the empty part behind a slash at its end. -/
def inner (folder : Path) : List String :=
  if folder.text.toList.getLast? = some '/' then folder.parts.dropLast else folder.parts

section Child

variable (folder : Path) {name : String}

theorem toList_child (name : String) : (folder.child name).text.toList = folder.ahead ++ name.toList := by
  rw [child, ahead]
  split
  · rename_i hlast
    rw [List.getLast?_eq_none_iff.mp hlast, if_pos (Or.inl rfl)]
    rfl
  · rename_i hlast
    rw [if_pos (Or.inr hlast), String.toList_append]
  · rename_i c hslash hlast
    rw [if_neg, String.toList_append, String.toList_append]
    · rfl
    · rintro (hnil | hlast')
      · rw [hnil] at hlast
        cases hlast
      · exact hslash (Option.some.inj (hlast.symm.trans hlast'))

/-- Different names make different paths. -/
theorem child_inj {folder : Path} {other : String} (h : folder.child name = folder.child other) : name = other := by
  have htext := congrArg (fun path : Path => path.text.toList) h
  simp only [toList_child] at htext
  exact String.toList_injective (List.append_cancel_left htext)

/-- Behind a slash at its end, the path of a directory has an empty part. -/
theorem parts_of_slash {front : List Char} (h : folder.text.toList = front ++ ['/']) :
    folder.parts = partsOf front ++ [""] ∧ folder.inner = partsOf front := by
  have hparts : folder.parts = partsOf front ++ [""] := by rw [parts_eq, h, partsOf_slash]; rfl
  rw [inner, if_pos (by rw [h, List.getLast?_concat]), hparts]
  exact ⟨rfl, List.dropLast_concat⟩

theorem exists_slash {folder : Path} (h : folder.text.toList.getLast? = some '/') :
    ∃ front, folder.text.toList = front ++ ['/'] := ⟨_, (List.dropLast_append_getLast? '/' h).symm⟩

theorem parts_eq_inner : folder.parts = folder.inner ∨ folder.parts = folder.inner ++ [""] := by
  by_cases hlast : folder.text.toList.getLast? = some '/'
  · obtain ⟨front, hfront⟩ := exists_slash hlast
    obtain ⟨hparts, hinner⟩ := folder.parts_of_slash hfront
    exact Or.inr (by rw [hparts, hinner])
  · exact Or.inl (if_neg hlast).symm

/-- **The path of an entry has the parts of its directory, and the name.** -/
theorem parts_child (h : IsPart name) : (folder.child name).parts = folder.inner ++ [name] := by
  rw [parts_eq, toList_child, ahead]
  by_cases hnil : folder.text.toList = []
  · have hinner : folder.inner = [] := by rw [inner, parts_eq, hnil]; rfl
    rw [if_pos (Or.inl hnil), hnil, List.nil_append, hinner, partsOf, if_neg h.toList_ne_nil, body_of_ne h.ne_slash,
      h.splitOn, List.nil_append]
  · by_cases hlast : folder.text.toList.getLast? = some '/'
    · obtain ⟨front, hfront⟩ := exists_slash hlast
      rw [if_pos (Or.inr hlast), hfront, List.append_assoc, List.singleton_append, partsOf_slash, h.splitOn,
        (folder.parts_of_slash hfront).2]
    · rw [if_neg (not_or.mpr ⟨hnil, hlast⟩), List.append_assoc, List.singleton_append, partsOf_slash, h.splitOn, inner,
        if_neg hlast, parts_eq]

/-- The path of an entry starts where that of its directory starts. -/
theorem isAbsolute_child (h : IsPart name) : (folder.child name).isAbsolute = folder.isAbsolute := by
  rw [isAbsolute, isAbsolute, toList_child, ahead]
  cases hfolder : folder.text.toList with
  | nil =>
    cases hname : name.toList with
    | nil => exact absurd hname h.toList_ne_nil
    | cons c cs =>
      have hc : c ≠ '/' := fun hc => h.ne_slash cs (hc ▸ hname)
      rw [if_pos (Or.inl rfl), List.nil_append, List.head?_cons, List.head?_nil]
      exact beq_eq_false_iff_ne.mpr fun heq => hc (Option.some.inj heq)
  | cons c cs => split_ifs <;> rfl

/-- The path above that of an entry is the same for all names. -/
theorem parent?_child (h : IsPart name) :
    (folder.child name).parent? = (climb folder.isAbsolute folder.inner.reverse).head? := by
  rw [parent?, ancestors, parts_child folder h, isAbsolute_child folder h, List.reverse_append, List.reverse_singleton,
    List.singleton_append, climb, h.not_idle, Bool.false_and, if_neg Bool.false_ne_true]
  rfl

end Child

end TypedSettings.Path
