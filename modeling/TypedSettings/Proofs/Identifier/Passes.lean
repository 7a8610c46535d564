import TypedSettings.Proofs.Identifier.Segments

/-!
# Identifiers in separate passes

`squeeze` replaces what a name cannot hold and leaves out repeated underscores at one go, and `finish` mends an empty
text or the start of another one. Here every rule is a pass of its own over the whole text: `replaced`, `collapsed`,
`trim`, `filled` and `guarded`.

* `foldl_extended`: a loop that looks at the end of what it has written so far writes what `squeeze` does;
* `collapsed_eq_iff`, `trim_eq_iff`: what the passes do that take underscores away, said without them;
* `ofKeyBy_inPasses`: the loop and the passes, one after the other, both give the identifier of a key.
-/

namespace TypedSettings.Identifier

variable {c d : Char} {cs text core : List Char}

/-! ## The loop -/

/-- What is written once one more character is read: itself or an underscore, but no second underscore in a row. -/
def extended (text : List Char) (c : Char) : List Char :=
  let d := if isWordChar c || c == '_' then c else '_'
  if d == '_' && text.getLast? == some '_' then text else text ++ [d]

theorem extended_of_isWordChar (hc : isWordChar c = true) (text : List Char) : extended text c = text ++ [c] := by
  simp [extended, hc, ne_underscore hc]

theorem extended_of_not_isWordChar (hc : ¬isWordChar c = true) (text : List Char) :
    extended text c = if text.getLast? == some '_' then text else text ++ ['_'] := by
  have hwritten : (if isWordChar c || c == '_' then c else '_') = '_' := by
    by_cases h : c = '_'
    · simp [h]
    · simp [h, hc]
  simp only [extended, hwritten]
  rfl

/-- **The loop writes what `squeeze` does**: all that it asks of the text so far is whether an underscore ends it. -/
theorem foldl_extended : ∀ cs text : List Char,
    cs.foldl extended text = text ++ squeeze (text.getLast? == some '_') cs
  | [], text => by simp [squeeze]
  | c :: cs, text => by
    rw [List.foldl_cons, foldl_extended cs, squeeze]
    by_cases hc : isWordChar c = true
    · have hfree : ((text ++ [c]).getLast? == some '_') = false := by simpa using ne_underscore hc
      rw [extended_of_isWordChar hc, if_pos hc, hfree, List.append_assoc, List.singleton_append]
    · rw [extended_of_not_isWordChar hc, if_neg hc]
      by_cases hlast : text.getLast? = some '_'
      · simp [hlast]
      · simp [hlast]

/-! ## The passes -/

/-- The characters that a name may have, `[A-Za-z0-9_]`. -/
def isAllowed (c : Char) : Bool :=
  ('A' ≤ c && c ≤ 'Z') || ('a' ≤ c && c ≤ 'z') || ('0' ≤ c && c ≤ '9') || c == '_'

/-- A text with an underscore for every character that a name may not have. -/
def replaced (cs : List Char) : List Char := cs.map fun c => if isAllowed c then c else '_'

/-- A text without the underscores that stand in front of another one. -/
def collapsed : List Char → List Char
  | [] => []
  | [c] => [c]
  | c :: d :: cs => if c = '_' ∧ d = '_' then collapsed (d :: cs) else c :: collapsed (d :: cs)

/-- A text, or the placeholder in place of the empty one. -/
def filled (cs : List Char) : List Char := if cs = [] then placeholder else cs

/-- A text with an underscore in front, if it begins with a digit. -/
def guarded (cs : List Char) : List Char := if cs.head?.any Char.isDigit then '_' :: cs else cs

theorem isAllowed_eq (c : Char) : isAllowed c = (isWordChar c || c == '_') := by
  have hword : isWordChar c = (c.isUpper || c.isLower || c.isDigit) := rfl
  have hupper : c.isUpper = ('A' ≤ c && c ≤ 'Z') := Bool.decide_and _ _
  rw [hword, hupper]
  rfl

theorem replaced_cons_of_isWordChar (hc : isWordChar c = true) (cs : List Char) :
    replaced (c :: cs) = c :: replaced cs := by
  simp [replaced, isAllowed_eq, hc]

theorem replaced_cons_of_not_isWordChar (hc : ¬isWordChar c = true) (cs : List Char) :
    replaced (c :: cs) = '_' :: replaced cs := by
  by_cases h : c = '_'
  · simp [replaced, isAllowed_eq, h]
  · simp [replaced, isAllowed_eq, h, hc]

theorem collapsed_cons_of_ne (hc : c ≠ '_') (cs : List Char) : collapsed (c :: cs) = c :: collapsed cs := by
  cases cs with
  | nil => rfl
  | cons d cs => simp [collapsed, hc]

theorem collapsed_underscore_of_head? (hcs : cs.head? ≠ some '_') : collapsed ('_' :: cs) = '_' :: collapsed cs := by
  cases cs with
  | nil => rfl
  | cons d cs =>
    have hd : d ≠ '_' := by simpa using hcs
    simp [collapsed, hd]

theorem collapsed_underscore_underscore (cs : List Char) : collapsed ('_' :: '_' :: cs) = collapsed ('_' :: cs) := by
  simp [collapsed]

/-- **Replacing and collapsing is what `squeeze` does.** An underscore that is written already stands in front of the
text that is still to be collapsed. -/
theorem collapsed_replaced : ∀ (cs : List Char) (after : Bool),
    collapsed ((if after then ['_'] else []) ++ replaced cs) = (if after then ['_'] else []) ++ squeeze after cs
  | [], after => by cases after <;> rfl
  | c :: cs, after => by
    have hpending := collapsed_replaced cs true
    have hfree := collapsed_replaced cs false
    simp only [if_true, Bool.false_eq_true, if_false, List.nil_append, List.singleton_append] at hpending hfree
    rw [squeeze]
    by_cases hc : isWordChar c = true
    · rw [replaced_cons_of_isWordChar hc, if_pos hc]
      have hword : collapsed (c :: replaced cs) = c :: squeeze false cs := by
        rw [collapsed_cons_of_ne (ne_underscore hc), hfree]
      cases after with
      | true =>
        have hhead : (c :: replaced cs).head? ≠ some '_' := by simpa using ne_underscore hc
        simpa using (collapsed_underscore_of_head? hhead).trans (congrArg _ hword)
      | false => simpa using hword
    · rw [replaced_cons_of_not_isWordChar hc, if_neg hc]
      cases after with
      | true => simp [collapsed_underscore_underscore, hpending]
      | false => simp [hpending]

theorem guarded_filled (cs : List Char) : guarded (filled cs) = finish cs := by
  cases cs with
  | nil => rfl
  | cons c cs => simp [filled, guarded, finish]

/-! ## What the passes do -/

/-- A text collapses to another one: every run of underscores, up to where it ends, becomes one of them. -/
inductive Collapses : List Char → List Char → Prop
  | nil : Collapses [] []
  | char {c : Char} {cs text : List Char} : c ≠ '_' → Collapses cs text → Collapses (c :: cs) (c :: text)
  | run (n : Nat) {cs text : List Char} : cs.head? ≠ some '_' → Collapses cs text →
      Collapses (List.replicate (n + 1) '_' ++ cs) ('_' :: text)

/-- One more underscore in front of a run changes nothing. -/
theorem Collapses.underscore (h : Collapses ('_' :: cs) text) : Collapses ('_' :: '_' :: cs) text := by
  generalize hrun : '_' :: cs = whole at h
  cases h with
  | nil => cases hrun
  | char hc _ => exact absurd (List.cons.inj hrun).1.symm hc
  | run n hhead hrest => exact .run (n + 1) hhead hrest

theorem collapses_collapsed : ∀ cs : List Char, Collapses cs (collapsed cs)
  | [] => .nil
  | [c] => by
    by_cases hc : c = '_'
    · rw [hc]
      exact .run 0 (by simp) .nil
    · exact .char hc .nil
  | c :: d :: cs => by
    have ih := collapses_collapsed (d :: cs)
    by_cases hc : c = '_'
    · subst hc
      by_cases hd : d = '_'
      · subst hd
        rw [collapsed_underscore_underscore]
        exact ih.underscore
      · have hhead : (d :: cs).head? ≠ some '_' := by simpa using hd
        rw [collapsed_underscore_of_head? hhead]
        exact .run 0 hhead ih
    · rw [collapsed_cons_of_ne hc]
      exact .char hc ih

theorem collapsed_run (n : Nat) (hcs : cs.head? ≠ some '_') :
    collapsed (List.replicate (n + 1) '_' ++ cs) = '_' :: collapsed cs := by
  induction n with
  | zero => exact collapsed_underscore_of_head? hcs
  | succ n ih =>
    rw [List.replicate_succ, List.replicate_succ, List.cons_append, List.cons_append, collapsed_underscore_underscore]
    exact ih

/-- **A text collapses to what is left of it**, and to nothing else. -/
theorem collapsed_eq_iff : collapsed cs = text ↔ Collapses cs text := by
  constructor
  · rintro rfl
    exact collapses_collapsed cs
  · intro h
    induction h with
    | nil => rfl
    | char hc _ ih => rw [collapsed_cons_of_ne hc, ih]
    | run n hhead _ ih => rw [collapsed_run n hhead, ih]

/-- A text is another one without the underscores at its ends. -/
structure IsTrimmed (cs core : List Char) : Prop where
  exists_ends : ∃ front behind, cs = front ++ (core ++ behind) ∧ (∀ c ∈ front, c = '_') ∧ ∀ c ∈ behind, c = '_'
  head : core.head? ≠ some '_'
  last : core.getLast? ≠ some '_'

theorem isTrimmed_trim (cs : List Char) : IsTrimmed cs (trim cs) where
  exists_ends := by
    refine ⟨cs.takeWhile (· == '_'), (cs.dropWhile (· == '_')).rtakeWhile (· == '_'), ?_, ?_, ?_⟩
    · rw [trim_eq, List.rdropWhile, List.rtakeWhile, ← List.reverse_append, List.takeWhile_append_dropWhile,
        List.reverse_reverse, List.takeWhile_append_dropWhile]
    · intro c hc
      simpa using List.mem_takeWhile_imp (p := (· == '_')) hc
    · intro c hc
      simpa using List.mem_rtakeWhile_imp (p := (· == '_')) hc
  head := head?_trim cs
  last := getLast?_trim cs

/-- Underscores in front of a text are dropped, and no more. -/
theorem dropWhile_front {front : List Char} (hfront : ∀ c ∈ front, c = '_') (hcs : cs.head? ≠ some '_') :
    (front ++ cs).dropWhile (· == '_') = cs := by
  rw [List.dropWhile_append_of_pos fun c hc => beq_iff_eq.mpr (hfront c hc)]
  cases cs with
  | nil => rfl
  | cons c cs => exact List.dropWhile_cons_of_neg (by simpa using hcs)

/-- **A text is trimmed to what is between the underscores at its ends**, and to nothing else. -/
theorem trim_eq_iff : trim cs = core ↔ IsTrimmed cs core := by
  constructor
  · rintro rfl
    exact isTrimmed_trim cs
  · rintro ⟨⟨front, behind, rfl, hfront, hbehind⟩, hhead, hlast⟩
    have hends : ∀ c ∈ behind.reverse, c = '_' := fun c hc => hbehind c (List.mem_reverse.mp hc)
    by_cases hne : core = []
    · have hall : ∀ c ∈ front ++ behind, c = '_' := List.forall_mem_append.mpr ⟨hfront, hbehind⟩
      have hdropped : (front ++ behind ++ []).dropWhile (· == '_') = [] := dropWhile_front hall (by simp)
      rw [List.append_nil] at hdropped
      rw [hne, trim, List.nil_append, hdropped]
      rfl
    · have hinner : (core ++ behind).head? ≠ some '_' := by rwa [List.head?_append_of_ne_nil _ hne]
      have hreversed : core.reverse.head? ≠ some '_' := by rwa [List.head?_reverse]
      rw [trim, dropWhile_front hfront hinner, List.reverse_append, dropWhile_front hends hreversed,
        List.reverse_reverse]

/-! ## The identifier of a key -/

/-- **A loop and separate passes give the identifier of a key**, whatever upper-casing makes of a character. The loop
reads the key with the first characters of its words in upper case, looking at the end of what it has written; the
passes replace, collapse, trim, fill and guard that text one after the other. -/
theorem ofKeyBy_inPasses (upper : Char → List Char) :
    (∀ key : String,
      (ofKeyBy upper key).text = String.ofList (finish (trim ((raisedBy upper key.toList).foldl extended []))) ∧
      (ofKeyBy upper key).text =
        String.ofList (guarded (filled (trim (collapsed (replaced (raisedBy upper key.toList))))))) ∧
      (∀ cs : List Char, cs.foldl extended [] = collapsed (replaced cs)) ∧
      (∀ cs text : List Char, collapsed cs = text ↔ Collapses cs text) ∧
      (∀ cs core : List Char, trim cs = core ↔ IsTrimmed cs core) ∧
      (∀ cs : List Char, finish cs = guarded (filled cs)) ∧
      ofKeyBy Text.capital = ofKey := by
  have hloop : ∀ cs : List Char, cs.foldl extended [] = squeeze false cs := fun cs => foldl_extended cs []
  have hpasses : ∀ cs : List Char, collapsed (replaced cs) = squeeze false cs := fun cs => collapsed_replaced cs false
  refine ⟨fun key => ⟨?_, ?_⟩, fun cs => ?_, fun _ _ => collapsed_eq_iff, fun _ _ => trim_eq_iff,
    fun cs => (guarded_filled cs).symm, ofKeyBy_capital⟩
  · rw [ofKeyBy, hloop, raisedBy_eq_flatMap]
  · rw [ofKeyBy, guarded_filled, hpasses, raisedBy_eq_flatMap]
  · rw [hloop, hpasses]

/-- A sign beside an underscore makes no second one, and those at the ends go before the digit is guarded. -/
example : guarded (filled (trim (collapsed (replaced "$_9lives__ä$".toList)))) = "_9lives".toList := by decide

end TypedSettings.Identifier
