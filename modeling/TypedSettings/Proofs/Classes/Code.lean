import TypedSettings.Classes.Source
import TypedSettings.Proofs.Classes.Literal

/-!
# The code of a text

`codeOf` is what remains of a text as code once its literals and comments are read: of a literal its quotes, of a
comment the end of its line. It knows the two kinds that classes have, literals between quotes and comments up to the
end of a line.

* `codeFrom_literal`, `codeFrom_commentLine`: what a literal or a comment says is no code;
* `codeOf_renderLines`: the code of a text is that of its lines, where no line has a character inside that ends one.
-/

namespace TypedSettings.Classes

open Text

/-! ## Reading code -/

/-- Where a reader of code stands: in the code, in a literal, behind a backslash there, or in a comment. -/
inductive CodePlace where
  | code
  | literal
  | escape
  | comment

/-- Reads from a place on what is code. Of a literal that are its quotes, of a comment the end of its line. -/
def codeFrom : CodePlace → List Char → List Char
  | _, [] => []
  | .code, c :: cs =>
    if c = '"' then c :: codeFrom .literal cs
    else if c = '/' ∧ cs.head? = some '/' then codeFrom .comment cs
    else c :: codeFrom .code cs
  | .literal, c :: cs =>
    if endsLine c = true ∨ c = '"' then c :: codeFrom .code cs
    else if c = '\\' then codeFrom .escape cs
    else codeFrom .literal cs
  | .escape, c :: cs => if endsLine c then c :: codeFrom .code cs else codeFrom .literal cs
  | .comment, c :: cs => if endsLine c then c :: codeFrom .code cs else codeFrom .comment cs

/-- The code of a text: what stands outside of its literals and comments. -/
def codeOf (text : String) : List Char := codeFrom .code text.toList

/-- Whether a literal or a comment can begin with a character. -/
def isMark (c : Char) : Bool := c == '"' || c == '/'

/-- What has no marks is code. -/
theorem codeFrom_append {cs : List Char} (h : ∀ c ∈ cs, isMark c = false) (rest : List Char) :
    codeFrom .code (cs ++ rest) = cs ++ codeFrom .code rest := by
  induction cs with
  | nil => rfl
  | cons c cs ih =>
    obtain ⟨hc, hcs⟩ := List.forall_mem_cons.mp h
    have hquote : c ≠ '"' := by
      rintro rfl
      exact absurd hc (by decide)
    have hslash : c ≠ '/' := by
      rintro rfl
      exact absurd hc (by decide)
    rw [List.cons_append, codeFrom, if_neg hquote, if_neg (fun hboth => hslash hboth.1), ih hcs, List.cons_append]

/-- **The end of a line ends what began on it**, be it a comment or a literal. -/
theorem codeFrom_append_feed {cs : List Char} (h : ∀ c ∈ cs, endsLine c = false) (rest : List Char) :
    ∀ place, codeFrom place (cs ++ '\n' :: rest) = codeFrom place cs ++ '\n' :: codeFrom .code rest := by
  induction cs with
  | nil =>
    intro place
    have hfeed : endsLine '\n' = true := by decide
    cases place with
    | code => simp [codeFrom]
    | literal => simp [codeFrom, hfeed]
    | escape => simp [codeFrom, hfeed]
    | comment => simp [codeFrom, hfeed]
  | cons c cs ih =>
    have hbehind := ih (List.forall_mem_cons.mp h).2
    have hhead : (cs ++ '\n' :: rest).head? = some '/' ↔ cs.head? = some '/' := by
      cases cs with
      | nil => simp
      | cons d cs => simp
    intro place
    cases place with
    | code =>
      simp only [List.cons_append, codeFrom, hhead, hbehind]
      split_ifs
      · rfl
      · rfl
      · rfl
    | literal =>
      simp only [List.cons_append, codeFrom, hbehind]
      split_ifs
      · rfl
      · rfl
      · rfl
    | escape =>
      simp only [List.cons_append, codeFrom, hbehind]
      split_ifs
      · rfl
      · rfl
    | comment =>
      simp only [List.cons_append, codeFrom, hbehind]
      split_ifs
      · rfl
      · rfl

/-- A comment has no code up to the end of its line. -/
theorem codeFrom_comment {cs : List Char} (h : ∀ c ∈ cs, endsLine c = false) : codeFrom .comment cs = [] := by
  induction cs with
  | nil => rfl
  | cons c cs ih =>
    obtain ⟨hc, hcs⟩ := List.forall_mem_cons.mp h
    rw [codeFrom, hc, if_neg Bool.false_ne_true, ih hcs]

/-! ### Literals -/

/-- Whether a character ends a literal, or stands for something else there. -/
def isLiteralMark (c : Char) : Bool := endsLine c || c == '"' || c == '\\'

theorem codeFrom_literal_append {cs : List Char} (h : ∀ c ∈ cs, isLiteralMark c = false) (rest : List Char) :
    codeFrom .literal (cs ++ rest) = codeFrom .literal rest := by
  induction cs with
  | nil => rfl
  | cons c cs ih =>
    obtain ⟨hc, hcs⟩ := List.forall_mem_cons.mp h
    simp only [isLiteralMark, Bool.or_eq_false_iff, beq_eq_false_iff_ne] at hc
    obtain ⟨⟨hend, hquote⟩, hslash⟩ := hc
    have hinside : ¬(endsLine c = true ∨ c = '"') := by
      rw [hend]
      exact fun hor => hor.elim Bool.false_ne_true hquote
    rw [List.cons_append, codeFrom, if_neg hinside, if_neg hslash, ih hcs]

/-- A character of a literal is no code, and the literal goes on behind it. -/
theorem codeFrom_literalChar (c : Char) (rest : List Char) :
    codeFrom .literal (literalChar c ++ rest) = codeFrom .literal rest := by
  unfold literalChar
  split_ifs with hquote hslash hfeed hreturn htab hnull hhidden
  any_goals rfl
  · exact codeFrom_literal_append (forall_mem_hexQuad (by decide) c.toNat) rest
  · refine codeFrom_literal_append (List.forall_mem_singleton.mpr ?_) rest
    rw [isLiteralMark, endsLine_eq_false hhidden, beq_false_of_ne (by simpa using hquote),
      beq_false_of_ne (by simpa using hslash)]
    rfl

theorem codeFrom_flatMap_literalChar (cs rest : List Char) :
    codeFrom .literal (cs.flatMap literalChar ++ '"' :: rest) = '"' :: codeFrom .code rest := by
  induction cs with
  | nil => rfl
  | cons c cs ih => rw [List.flatMap_cons, List.append_assoc, codeFrom_literalChar, ih]

/-- **Of a literal only the quotes are code.** -/
theorem codeFrom_literal (s : String) (rest : List Char) :
    codeFrom .code ((literal s).toList ++ rest) = '"' :: '"' :: codeFrom .code rest := by
  rw [literal, String.toList_ofList, List.cons_append, List.append_assoc, List.singleton_append, codeFrom, if_pos rfl,
    codeFrom_flatMap_literalChar]

/-! ## The code of lines -/

/-- The code of each line. -/
def codeLines (lines : List Line) : List (List Char) := lines.map fun line => codeFrom .code line.indented

theorem codeLines_append (lines more : List Line) : codeLines (lines ++ more) = codeLines lines ++ codeLines more :=
  List.map_append

/-- **The code of a text is that of its lines**, where no line has a character inside that ends one. -/
theorem codeOf_renderLines {lines : List Line} (h : AllLack endsLine lines) :
    codeOf (renderLines lines) = (codeLines lines).flatMap fun code => code ++ ['\n'] := by
  induction lines with
  | nil => rfl
  | cons line lines ih =>
    obtain ⟨hline, hlines⟩ := List.forall_mem_cons.mp h
    have hindented : ∀ c ∈ line.indented, endsLine c = false := hline.indented (by decide)
    have hrest : codeFrom .code (renderLines lines).toList = _ := ih hlines
    have hcons : codeLines (line :: lines) = codeFrom .code line.indented :: codeLines lines := rfl
    rw [codeOf, toList_renderLines_cons, codeFrom_append_feed hindented, hrest, hcons, List.flatMap_cons,
      List.append_assoc, List.singleton_append]

theorem codeFrom_indented {text : String} (h : text.toList ≠ []) (depth : Nat) :
    codeFrom .code (Line.indented ⟨depth, text⟩) = List.replicate (4 * depth) ' ' ++ codeOf text := by
  have hempty : ¬text.isEmpty = true := fun he => h (by rw [String.isEmpty_iff.mp he]; rfl)
  have hblanks : ∀ c ∈ List.replicate (4 * depth) ' ', isMark c = false := by
    intro c hc
    rw [List.eq_of_mem_replicate hc]
    decide
  rw [Line.indented, if_neg hempty, codeFrom_append hblanks, codeOf]

/-- What a literal on a line says is no code. -/
theorem codeFrom_literalLine {before : String} (h : Lacks isMark before) (depth : Nat) (behind s : String) :
    codeFrom .code (Line.indented ⟨depth, before ++ literal s ++ behind⟩) =
      List.replicate (4 * depth) ' ' ++ (before.toList ++ '"' :: '"' :: codeOf behind) := by
  have htext : (before ++ literal s ++ behind).toList = before.toList ++ ((literal s).toList ++ behind.toList) := by
    rw [String.toList_append, String.toList_append, List.append_assoc]
  have hne : (before ++ literal s ++ behind).toList ≠ [] := by
    rw [htext, literal, String.toList_ofList]
    simp
  rw [codeFrom_indented hne, codeOf, htext, codeFrom_append h, codeFrom_literal, codeOf]

/-- A comment on a line of its own is no code. -/
theorem codeFrom_commentLine (depth : Nat) {address : Address} (h : Lacks endsLine (summaryText address.text)) :
    codeFrom .code (commentLine depth address).indented = List.replicate (4 * depth) ' ' := by
  have hrest : Lacks endsLine ("/ <summary>Configuration key: \"" ++ summaryText address.text ++ "\"</summary>") :=
    ((lacks_ofList (by decide)).append h).append (lacks_ofList (by decide))
  have htext : (commentLine depth address).text.toList = '/' :: '/' ::
      ("/ <summary>Configuration key: \"" ++ summaryText address.text ++ "\"</summary>").toList := by
    rw [commentLine, String.toList_append, String.toList_append, String.toList_append, String.toList_append]
    rfl
  have hne : (commentLine depth address).text.toList ≠ [] := by
    rw [htext]
    exact List.cons_ne_nil _ _
  have hcode : codeOf (commentLine depth address).text = [] := by
    rw [codeOf, htext, codeFrom, if_neg (by decide), if_pos ⟨rfl, rfl⟩]
    exact codeFrom_comment (List.forall_mem_cons.mpr ⟨by decide, hrest⟩)
  exact (codeFrom_indented hne depth).trans (by rw [hcode, List.append_nil])

end TypedSettings.Classes
