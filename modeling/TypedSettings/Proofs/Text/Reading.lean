import Mathlib.Data.List.TakeWhile
import TypedSettings.Proofs.Text.Lines

/-!
# Lines read back

A text is read as lines with depths: four blanks in front of a line make one (`readLines`). Where every written line
begins with another character than a blank, the lines that are read are those that were written
(`readLines_renderLines`). In them, a block is what stands in front of the first closing brace at a depth (`block`), of
which only the lines at one depth may be read (`readAt`); and a line is read word by word (`splitWords`).
-/

namespace TypedSettings.Text

/-! ## Reading lines -/

/-- A line with the blanks in front of it. -/
def readLine (cs : List Char) : Line :=
  ⟨(cs.takeWhile (· == ' ')).length / 4, String.ofList (cs.dropWhile (· == ' '))⟩

/-- The lines of a text, each ended by a character of a kind. -/
def readLines (kind : Char → Bool) (text : String) : List Line := (text.toList.splitOnP kind).map readLine

/-- A text begins with another character than a blank. -/
def BeginsFlush (s : String) : Prop := ∃ c cs, s.toList = c :: cs ∧ (c == ' ') = false

theorem beginsFlush_ofList {c : Char} {cs : List Char} (h : (c == ' ') = false) :
    BeginsFlush (String.ofList (c :: cs)) := ⟨c, cs, String.toList_ofList, h⟩

theorem BeginsFlush.append {s : String} (h : BeginsFlush s) (t : String) : BeginsFlush (s ++ t) := by
  obtain ⟨c, cs, hs, hc⟩ := h
  exact ⟨c, cs ++ t.toList, by rw [String.toList_append, hs, List.cons_append], hc⟩

/-- A line stands at a depth or deeper, or is empty, and has no blanks besides its indentation in front. -/
def StandsAt (depth : Nat) (line : Line) : Prop := line = blank ∨ depth ≤ line.depth ∧ BeginsFlush line.text

/-- Every line stands at a depth or deeper. -/
def AllStandAt (depth : Nat) (lines : List Line) : Prop := ∀ line ∈ lines, StandsAt depth line

section AllStandAt

variable {depth : Nat} {line : Line} {lines more : List Line}

theorem allStandAt_nil : AllStandAt depth [] := List.forall_mem_nil _

theorem AllStandAt.cons {deeper : Nat} {s : String} (hline : BeginsFlush s) (hdepth : depth ≤ deeper)
    (h : AllStandAt depth lines) : AllStandAt depth (⟨deeper, s⟩ :: lines) :=
  List.forall_mem_cons.mpr ⟨Or.inr ⟨hdepth, hline⟩, h⟩

theorem AllStandAt.cons_blank (h : AllStandAt depth lines) : AllStandAt depth (blank :: lines) :=
  List.forall_mem_cons.mpr ⟨Or.inl rfl, h⟩

theorem AllStandAt.append (h : AllStandAt depth lines) (hmore : AllStandAt depth more) :
    AllStandAt depth (lines ++ more) := List.forall_mem_append.mpr ⟨h, hmore⟩

theorem AllStandAt.mono {deeper : Nat} (h : AllStandAt deeper lines) (hdepth : depth ≤ deeper) :
    AllStandAt depth lines := fun line hmem => (h line hmem).imp_right fun ⟨hdeeper, hline⟩ =>
  ⟨Nat.le_trans hdepth hdeeper, hline⟩

theorem allStandAt_parted {groups : List (List Line)} (h : ∀ group ∈ groups, AllStandAt depth group) :
    AllStandAt depth (parted groups) := forall_mem_parted (Or.inl rfl) h

end AllStandAt

theorem readLine_indented {depth : Nat} {line : Line} (h : StandsAt depth line) : readLine line.indented = line := by
  rcases h with rfl | ⟨-, c, cs, htext, hc⟩
  · rfl
  · have hne : line.text.isEmpty = false := by
      rw [← Bool.not_eq_true, String.isEmpty_iff]
      rintro hempty
      rw [hempty] at htext
      cases htext
    have hblanks : ∀ b ∈ List.replicate (4 * line.depth) ' ', (b == ' ') = true := fun b hb =>
      beq_iff_eq.mpr (List.eq_of_mem_replicate hb)
    have htake : line.indented.takeWhile (· == ' ') = List.replicate (4 * line.depth) ' ' := by
      rw [Line.indented, if_neg (ne_true_of_eq_false hne), htext, List.takeWhile_append_of_pos hblanks,
        List.takeWhile_cons, hc, if_neg Bool.false_ne_true, List.append_nil]
    have hdrop : line.indented.dropWhile (· == ' ') = line.text.toList := by
      rw [Line.indented, if_neg (ne_true_of_eq_false hne), htext, List.dropWhile_append_of_pos hblanks,
        List.dropWhile_cons, hc, if_neg Bool.false_ne_true]
    rw [readLine, htake, hdrop, List.length_replicate, Nat.mul_div_cancel_left _ (by decide), String.ofList_toList]

/-- **The lines that are read are those that were written**, with an empty one behind them. -/
theorem readLines_renderLines {kind : Char → Bool} (hfeed : kind '\n' = true) (hblank : kind ' ' = false)
    {lines : List Line} (h : AllLack kind lines) (hstand : AllStandAt 0 lines) :
    readLines kind (renderLines lines) = lines ++ [blank] := by
  have hread : (lines.map Line.indented).map readLine = lines := by
    rw [List.map_map]
    exact (List.map_congr_left fun line hmem => readLine_indented (hstand line hmem)).trans (List.map_id lines)
  rw [readLines, splitOnP_renderLines hfeed hblank h, List.map_append, hread]
  rfl

/-- A line with characters inside that end one is read as several, and those around it as they are written. -/
theorem readLines_renderLines_append {kind : Char → Bool} (hfeed : kind '\n' = true) (hblank : kind ' ' = false)
    {front behind : List Line} (hfront : AllLack kind front ∧ AllStandAt 0 front)
    (hbehind : AllLack kind behind ∧ AllStandAt 0 behind) (line : Line) :
    readLines kind (renderLines (front ++ line :: behind)) =
      front ++ (line.indented.splitOnP kind).map readLine ++ behind ++ [blank] := by
  have hwritten : ∀ {lines : List Line}, AllLack kind lines ∧ AllStandAt 0 lines →
      (lines.flatMap fun line => line.indented.splitOnP kind).map readLine = lines := by
    intro lines h
    have hread := readLines_renderLines hfeed hblank h.1 h.2
    rw [readLines, splitOnP_renderLines_eq_flatMap hfeed, List.map_append] at hread
    exact List.append_inj_left' hread rfl
  have hlast : [[]].map readLine = [blank] := rfl
  rw [readLines, splitOnP_renderLines_eq_flatMap hfeed, List.flatMap_append, List.flatMap_cons, List.map_append,
    List.map_append, List.map_append, hwritten hfront, hwritten hbehind, hlast]
  simp only [List.append_assoc]

/-! ## Blocks -/

/-- The lines in front of the first closing brace at a depth. -/
def block (depth : Nat) (lines : List Line) : List Line := lines.takeWhile (· ≠ ⟨depth, "\x7d"⟩)

/-- **A block ends at the closing brace at its depth**, where all lines in it stand deeper. -/
theorem block_append {depth : Nat} {lines : List Line} (h : AllStandAt (depth + 1) lines) (rest : List Line) :
    block depth (lines ++ ⟨depth, "\x7d"⟩ :: rest) = lines := by
  have hinside : ∀ line ∈ lines, decide (line ≠ ⟨depth, "\x7d"⟩) = true := by
    intro line hmem
    refine decide_eq_true ?_
    rintro rfl
    rcases h _ hmem with hbrace | ⟨hdepth, -⟩
    · exact absurd (congrArg Line.text hbrace) (show "\x7d" ≠ "" by decide)
    · exact absurd hdepth (Nat.not_succ_le_self depth)
  rw [block, List.takeWhile_append_of_pos hinside, List.takeWhile_cons_of_neg (by simp), List.append_nil]

/-- What is read in the lines that stand at one depth. -/
def readAt {α : Type} (read : Line → Option α) (depth : Nat) (lines : List Line) : List α :=
  (lines.filter (·.depth == depth)).filterMap read

section ReadAt

variable {α : Type} {read : Line → Option α} {depth : Nat} {lines : List Line}

theorem readAt_append (lines more : List Line) :
    readAt read depth (lines ++ more) = readAt read depth lines ++ readAt read depth more := by
  rw [readAt, List.filter_append, List.filterMap_append]
  rfl

theorem readAt_eq_nil (h : ∀ line ∈ lines, line.depth = depth → read line = none) : readAt read depth lines = [] := by
  refine List.filterMap_eq_nil_iff.mpr fun line hmem => ?_
  obtain ⟨hmem, hdepth⟩ := List.mem_filter.mp hmem
  exact h line hmem (beq_iff_eq.mp hdepth)

/-- What stands deeper is not read. -/
theorem AllStandAt.readAt_eq_nil (h : AllStandAt (depth + 1) lines) (hblank : read blank = none) :
    readAt read depth lines = [] := by
  refine Text.readAt_eq_nil fun line hmem hdepth => ?_
  rcases h line hmem with rfl | ⟨hdeeper, -⟩
  · exact hblank
  · omega

theorem readAt_singleton {line : Line} {a : α} (hdepth : line.depth = depth) (h : read line = some a) :
    readAt read depth [line] = [a] := by
  rw [readAt, List.filter_singleton, beq_iff_eq.mpr hdepth, cond_true, List.filterMap_cons_some h, List.filterMap_nil]

end ReadAt

/-! ## Words -/

/-- The first words of a text, with one blank behind each, and what stands behind them. -/
def splitWords : Nat → List Char → List (List Char) × List Char
  | 0, cs => ([], cs)
  | n + 1, cs =>
    let (words, rest) := splitWords n (cs.dropWhile (· != ' ')).tail
    (cs.takeWhile (· != ' ') :: words, rest)

/-- The first word ends at the first blank. -/
theorem splitWords_append {word : List Char} (h : ' ' ∉ word) (n : Nat) (cs : List Char) :
    splitWords (n + 1) (word ++ ' ' :: cs) = (word :: (splitWords n cs).1, (splitWords n cs).2) := by
  have hword : ∀ c ∈ word, (c != ' ') = true := fun c hc => bne_iff_ne.mpr fun he => h (he ▸ hc)
  have htake : (word ++ ' ' :: cs).takeWhile (· != ' ') = word := by
    rw [List.takeWhile_append_of_pos hword, List.takeWhile_cons_of_neg (by decide), List.append_nil]
  have hdrop : (word ++ ' ' :: cs).dropWhile (· != ' ') = ' ' :: cs := by
    rw [List.dropWhile_append_of_pos hword, List.dropWhile_cons_of_neg (by decide)]
  rw [splitWords, htake, hdrop, List.tail_cons]

/-- A text without blanks is its only word. -/
theorem splitWords_word {word : List Char} (h : ' ' ∉ word) (n : Nat) :
    splitWords (n + 1) word = (word :: (splitWords n []).1, (splitWords n []).2) := by
  have hword : ∀ c ∈ word, (c != ' ') = true := fun c hc => bne_iff_ne.mpr fun he => h (he ▸ hc)
  rw [splitWords, List.takeWhile_eq_self_iff.mpr hword, List.dropWhile_eq_nil_iff.mpr hword, List.tail_nil]

/-- Where neither of two texts begins like the other, none that begins like the second begins with the first. -/
theorem isPrefixOf?_append_eq_none {word front : List Char} (h : ¬word <+: front) (h' : ¬front <+: word)
    (cs : List Char) : word.isPrefixOf? (front ++ cs) = none := by
  refine Option.eq_none_iff_forall_ne_some.mpr fun rest hrest => ?_
  have hbegins : word <+: front ++ cs := ⟨rest, List.isPrefixOf?_eq_some_iff_append_eq.mp hrest⟩
  rcases List.prefix_or_prefix_of_prefix hbegins (List.prefix_append front cs) with hbad | hbad
  · exact h hbad
  · exact h' hbad

/-- What stands behind the first of some words that a text begins with. -/
def behindAny? (words : List String) (cs : List Char) : Option (List Char) :=
  words.findSome? fun word => word.toList.isPrefixOf? cs

/-- None of some words begins like another one. -/
def Apart (words : List String) : Prop :=
  ∀ word ∈ words, ∀ other ∈ words, other = word ∨ ¬other.toList <+: word.toList ∧ ¬word.toList <+: other.toList

theorem behindAny?_eq_none {words : List String} {front : List Char}
    (h : ∀ word ∈ words, ¬word.toList <+: front ∧ ¬front <+: word.toList) (cs : List Char) :
    behindAny? words (front ++ cs) = none :=
  List.findSome?_eq_none_iff.mpr fun word hmem => isPrefixOf?_append_eq_none (h word hmem).1 (h word hmem).2 cs

/-- **Behind a word stands the rest of the text.** -/
theorem behindAny?_append : ∀ {words : List String} {word : String}, Apart words → word ∈ words → ∀ cs : List Char,
    behindAny? words (word.toList ++ cs) = some cs
  | other :: words, word, hapart, hmem, cs => by
    by_cases hother : other = word
    · have hfound : other.toList.isPrefixOf? (word.toList ++ cs) = some cs :=
        List.isPrefixOf?_eq_some_iff_append_eq.mpr (hother ▸ rfl)
      rw [behindAny?, List.findSome?_cons, hfound]
    · obtain ⟨hother', hword⟩ := (hapart word hmem other List.mem_cons_self).resolve_left hother
      have hrest : word ∈ words := (List.mem_cons.mp hmem).resolve_left fun he => hother he.symm
      have hwords : Apart words := fun w hw o ho =>
        hapart w (List.mem_cons_of_mem _ hw) o (List.mem_cons_of_mem _ ho)
      rw [behindAny?, List.findSome?_cons, isPrefixOf?_append_eq_none hother' hword]
      exact behindAny?_append hwords hrest cs

end TypedSettings.Text
