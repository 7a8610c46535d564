import Mathlib.Data.List.Basic
import TypedSettings.Text.Lines

/-!
# Where lines end

A text that lacks line feeds stays on its line. Where every line of a rendered list lacks them, the line feeds of the
result are those that end its lines, and no others (`count_renderLines`). The same holds for all characters that end
lines in a language: where no line has one inside, a text that is split at them gives back the lines
(`splitOnP_renderLines`), and only then are they no others than the line feeds of the lines
(`filter_renderLines_eq_iff`).
-/

namespace TypedSettings.Text

/-- A text has no character of a kind. -/
def Lacks (kind : Char → Bool) (s : String) : Prop := ∀ c ∈ s.toList, kind c = false

section Lacks

variable {kind : Char → Bool} {s t : String}

theorem forall_mem_of_any {cs : List Char} (h : cs.any kind = false) : ∀ c ∈ cs, kind c = false := fun c hc =>
  eq_false_of_ne_true (List.any_eq_false.mp h c hc)

theorem lacks_iff_any : Lacks kind s ↔ s.toList.any kind = false :=
  ⟨fun h => List.any_eq_false.mpr fun c hc => ne_true_of_eq_false (h c hc), forall_mem_of_any⟩

instance : Decidable (Lacks kind s) := decidable_of_iff _ lacks_iff_any.symm

theorem lacks_ofList {cs : List Char} (h : cs.any kind = false) : Lacks kind (String.ofList cs) := by
  rw [lacks_iff_any, String.toList_ofList]
  exact h

theorem Lacks.mono {kind' : Char → Bool} (hkind : ∀ c, kind c = true → kind' c = true) (h : Lacks kind' s) :
    Lacks kind s := by
  intro c hc
  have hc' : ¬kind' c = true := ne_true_of_eq_false (h c hc)
  exact eq_false_of_ne_true fun hbad => hc' (hkind c hbad)

theorem Lacks.append (hs : Lacks kind s) (ht : Lacks kind t) : Lacks kind (s ++ t) := by
  intro c hc
  rw [String.toList_append] at hc
  rcases List.mem_append.mp hc with hc | hc
  · exact hs c hc
  · exact ht c hc

theorem lacks_intercalate : ∀ {parts : List String}, Lacks kind s → (∀ part ∈ parts, Lacks kind part) →
    Lacks kind (s.intercalate parts)
  | [], _, _ => fun _ h => by cases h
  | [part], _, hparts => by
    rw [String.intercalate_singleton]
    exact hparts part List.mem_cons_self
  | part :: part' :: parts, hs, hparts => by
    obtain ⟨hpart, hrest⟩ := List.forall_mem_cons.mp hparts
    rw [String.intercalate_cons_cons]
    exact (hpart.append hs).append (lacks_intercalate hs hrest)

theorem lacks_of_append (h : Lacks kind (s ++ t)) : Lacks kind s ∧ Lacks kind t := by
  have hchars : ∀ c ∈ s.toList ++ t.toList, kind c = false := by
    rw [← String.toList_append]
    exact h
  exact List.forall_mem_append.mp hchars

theorem not_lacks_append_left (h : ¬Lacks kind s) (t : String) : ¬Lacks kind (s ++ t) := fun hlacks =>
  h (lacks_of_append hlacks).1

theorem not_lacks_append_right (s : String) (h : ¬Lacks kind t) : ¬Lacks kind (s ++ t) := fun hlacks =>
  h (lacks_of_append hlacks).2

/-- Where all words of a list lack what a name has, the name is none of them. -/
theorem not_mem_of_not_lacks {words : List String} (hwords : ∀ word ∈ words, Lacks kind word) (h : ¬Lacks kind s) :
    s ∉ words := fun hmem => h (hwords s hmem)

theorem lacks_of_intercalate : ∀ {parts : List String}, Lacks kind (s.intercalate parts) →
    ∀ part ∈ parts, Lacks kind part
  | [], _ => fun _ h => by cases h
  | [part], h => by
    rw [String.intercalate_singleton] at h
    exact List.forall_mem_singleton.mpr h
  | part :: part' :: parts, h => by
    rw [String.intercalate_cons_cons] at h
    obtain ⟨hfirst, hrest⟩ := lacks_of_append h
    exact List.forall_mem_cons.mpr ⟨(lacks_of_append hfirst).1, lacks_of_intercalate hrest⟩

/-- A number has a digit. -/
theorem not_lacks_isDigit_toString (n : Nat) : ¬Lacks Char.isDigit (toString n) := by
  obtain ⟨c, hc⟩ := List.exists_mem_of_ne_nil _ (@Nat.toDigits_ne_nil n 10)
  intro hlacks
  have hdigit := hlacks c (by rwa [Nat.toString_eq_ofList_toDigits, String.toList_ofList])
  rw [Nat.isDigit_of_mem_toDigits (by decide) (by decide) hc] at hdigit
  cases hdigit

end Lacks

/-- Whether a character is a line feed. -/
def isLineFeed (c : Char) : Bool := c == '\n'

/-- Every line lacks the characters of a kind. -/
def AllLack (kind : Char → Bool) (lines : List Line) : Prop := ∀ line ∈ lines, Lacks kind line.text

section AllLack

variable {kind : Char → Bool} {line : Line} {lines more : List Line}

theorem allLack_nil : AllLack kind [] := fun _ h => by cases h

theorem AllLack.cons (hline : Lacks kind line.text) (h : AllLack kind lines) : AllLack kind (line :: lines) := by
  intro other hmem
  rcases List.mem_cons.mp hmem with rfl | hmem
  · exact hline
  · exact h other hmem

theorem AllLack.append (h : AllLack kind lines) (h' : AllLack kind more) : AllLack kind (lines ++ more) := by
  intro other hmem
  rcases List.mem_append.mp hmem with hmem | hmem
  · exact h other hmem
  · exact h' other hmem

theorem AllLack.mono {kind' : Char → Bool} (hkind : ∀ c, kind c = true → kind' c = true) (h : AllLack kind' lines) :
    AllLack kind lines := fun line hmem => (h line hmem).mono hkind

theorem allLack_append : AllLack kind (lines ++ more) ↔ AllLack kind lines ∧ AllLack kind more :=
  List.forall_mem_append

theorem allLack_flatMap {α : Type} {f : α → List Line} {xs : List α} (h : ∀ x ∈ xs, AllLack kind (f x)) :
    AllLack kind (xs.flatMap f) := by
  intro other hmem
  obtain ⟨x, hx, hmem⟩ := List.mem_flatMap.mp hmem
  exact h x hx other hmem

theorem lacks_blank : Lacks kind blank.text := fun _ h => by cases h

/-- What holds of an empty line and of the lines of groups holds of all lines of the groups with empty lines between
them. -/
theorem forall_mem_parted {P : Line → Prop} (hblank : P blank) : ∀ {groups : List (List Line)},
    (∀ group ∈ groups, ∀ line ∈ group, P line) → ∀ line ∈ parted groups, P line
  | [], _ => List.forall_mem_nil _
  | [group], h => by
    rw [parted, List.intercalate_singleton]
    exact h group List.mem_cons_self
  | group :: group' :: groups, h => by
    obtain ⟨hgroup, hgroups⟩ := List.forall_mem_cons.mp h
    have hrest : ∀ line ∈ parted (group' :: groups), P line := forall_mem_parted hblank hgroups
    rw [parted, List.intercalate_cons_cons, List.append_assoc]
    exact List.forall_mem_append.mpr ⟨hgroup, List.forall_mem_cons.mpr ⟨hblank, hrest⟩⟩

/-- The empty lines between groups lack everything. -/
theorem allLack_parted {groups : List (List Line)} (h : ∀ group ∈ groups, AllLack kind group) :
    AllLack kind (parted groups) := forall_mem_parted lacks_blank h

end AllLack

/-! ## Rendered lines -/

theorem renderLines_cons (line : Line) (lines : List Line) :
    renderLines (line :: lines) = line.render ++ renderLines lines := String.join_cons

theorem renderLines_append (lines more : List Line) :
    renderLines (lines ++ more) = renderLines lines ++ renderLines more := by
  rw [renderLines, List.map_append, String.join_append, renderLines, renderLines]

/-- The characters of a line with those of its indentation. -/
def Line.indented (line : Line) : List Char :=
  if line.text.isEmpty then [] else List.replicate (4 * line.depth) ' ' ++ line.text.toList

theorem Line.toList_render (line : Line) : line.render.toList = line.indented ++ ['\n'] := by
  rw [Line.render, Line.indented, String.toList_append]
  split
  · rfl
  · rw [String.toList_append, String.toList_ofList]
    rfl

/-- What a line lacks, it lacks with its indentation, if this is not made of it. -/
theorem Lacks.indented {kind : Char → Bool} {line : Line} (hblank : kind ' ' = false) (h : Lacks kind line.text) :
    ∀ c ∈ line.indented, kind c = false := by
  intro c hc
  unfold Line.indented at hc
  split at hc
  · cases hc
  · rcases List.mem_append.mp hc with hc | hc
    · rw [List.eq_of_mem_replicate hc]
      exact hblank
    · exact h c hc

theorem toList_renderLines_cons (line : Line) (lines : List Line) :
    (renderLines (line :: lines)).toList = line.indented ++ '\n' :: (renderLines lines).toList := by
  rw [renderLines_cons, String.toList_append, Line.toList_render, List.append_assoc]
  rfl

/-- A text of lines, split at the characters of a kind, gives what the lines give, each of them split. -/
theorem splitOnP_renderLines_eq_flatMap {kind : Char → Bool} (hfeed : kind '\n' = true) : ∀ lines : List Line,
    (renderLines lines).toList.splitOnP kind = (lines.flatMap fun line => line.indented.splitOnP kind) ++ [[]]
  | [] => List.splitOnP_nil
  | line :: lines => by
    rw [toList_renderLines_cons, List.splitOnP_append_cons _ _ hfeed, splitOnP_renderLines_eq_flatMap hfeed lines,
      List.flatMap_cons, List.append_assoc]

/-- **A text of lines is split into these lines**, where no line has a character inside that ends one. -/
theorem splitOnP_renderLines {kind : Char → Bool} (hfeed : kind '\n' = true) (hblank : kind ' ' = false)
    {lines : List Line} (h : AllLack kind lines) :
    (renderLines lines).toList.splitOnP kind = lines.map Line.indented ++ [[]] := by
  have hlines : ∀ line ∈ lines, line.indented.splitOnP kind = [line.indented] := fun line hmem =>
    List.splitOnP_eq_singleton ((h line hmem).indented hblank)
  rw [splitOnP_renderLines_eq_flatMap hfeed, List.flatMap_congr hlines, List.map_eq_flatMap]

/-- **The line feeds of a rendered list are those that end its lines**, where no line has one inside. -/
theorem count_renderLines : ∀ {lines : List Line}, AllLack isLineFeed lines →
    (renderLines lines).toList.count '\n' = lines.length
  | [], _ => rfl
  | line :: lines, h => by
    have hrest : (renderLines lines).toList.count '\n' = lines.length :=
      count_renderLines fun other hmem => h other (List.mem_cons_of_mem _ hmem)
    have hline : '\n' ∉ line.indented := fun hmem =>
      absurd ((h line List.mem_cons_self).indented (by decide) '\n' hmem) (by decide)
    rw [toList_renderLines_cons, List.count_append, List.count_eq_zero_of_not_mem hline, List.count_cons_self, hrest,
      Nat.zero_add, List.length_cons]

/-! ## The characters that end lines -/

section Ends

variable {kind : Char → Bool}

/-- A line has a character of a kind with its indentation where it has one without. -/
theorem filter_indented_eq_nil_iff (hblank : kind ' ' = false) (line : Line) :
    line.indented.filter kind = [] ↔ Lacks kind line.text := by
  constructor
  · intro h c hc
    have hmem : c ∈ line.indented := by
      unfold Line.indented
      split
      · rename_i hempty
        rw [String.isEmpty_iff.mp hempty] at hc
        cases hc
      · exact List.mem_append_right _ hc
    exact eq_false_of_ne_true (List.filter_eq_nil_iff.mp h c hmem)
  · intro h
    exact List.filter_eq_nil_iff.mpr fun c hc => ne_true_of_eq_false (h.indented hblank c hc)

theorem filter_renderLines_cons (hfeed : kind '\n' = true) (line : Line) (lines : List Line) :
    (renderLines (line :: lines)).toList.filter kind =
      line.indented.filter kind ++ '\n' :: (renderLines lines).toList.filter kind := by
  rw [toList_renderLines_cons, List.filter_append, List.filter_cons_of_pos hfeed]

theorem length_le_length_filter_renderLines (hfeed : kind '\n' = true) (lines : List Line) :
    lines.length ≤ ((renderLines lines).toList.filter kind).length := by
  induction lines with
  | nil => exact Nat.zero_le _
  | cons line lines ih =>
    rw [filter_renderLines_cons hfeed, List.length_append, List.length_cons, List.length_cons]
    omega

/-- **The characters that end lines in a text are the line feeds behind its lines** where no line has one inside, and
only there. -/
theorem filter_renderLines_eq_iff (hfeed : kind '\n' = true) (hblank : kind ' ' = false) (lines : List Line) :
    (renderLines lines).toList.filter kind = List.replicate lines.length '\n' ↔ AllLack kind lines := by
  induction lines with
  | nil => exact ⟨fun _ => allLack_nil, fun _ => rfl⟩
  | cons line lines ih =>
    rw [filter_renderLines_cons hfeed, List.length_cons, List.replicate_succ]
    constructor
    · intro h
      have hlength := congrArg List.length h
      have hle := length_le_length_filter_renderLines hfeed lines
      rw [List.length_append, List.length_cons, List.length_cons, List.length_replicate] at hlength
      have hline : line.indented.filter kind = [] := List.eq_nil_of_length_eq_zero (by omega)
      rw [hline, List.nil_append] at h
      exact .cons ((filter_indented_eq_nil_iff hblank line).mp hline) (ih.mp (List.cons.inj h).2)
    · intro h
      obtain ⟨hline, hlines⟩ := List.forall_mem_cons.mp h
      rw [(filter_indented_eq_nil_iff hblank line).mpr hline, ih.mpr hlines, List.nil_append]

end Ends

end TypedSettings.Text
