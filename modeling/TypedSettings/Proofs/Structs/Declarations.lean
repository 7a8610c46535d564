import TypedSettings.Proofs.Structs.Layout

/-!
# The types that a text declares

A text is read line by line: a line declares a type if it begins, behind its blanks, with `pub trait` or `pub struct`,
and the type's name stands behind that (`declaredTypes`).

* `declaredNames_lines`: the lines of a struct declare the struct, and those of a module its trait and its structs;
* `declaredTypes_source`: what this says about the text of a document.
-/

namespace TypedSettings.Structs

open Text

/-! ## Declarations -/

/-- What stands in front of the name of a type where it is declared. -/
def declarationWords : List String := ["pub trait ", "pub struct "]

/-- Whether a character can stand in a name, or between the mark of a raw name and the name. -/
def isNameChar (c : Char) : Bool := isWordChar c || c == '_' || c == '#'

/-- The type that a line declares, if it declares one. -/
def declaredType? (line : List Char) : Option String :=
  declarationWords.findSome? fun word =>
    (word.toList.isPrefixOf? (line.dropWhile (· == ' '))).map fun rest => String.ofList (rest.takeWhile isNameChar)

/-- The types that a text declares. -/
def declaredTypes (text : String) : List String := (text.toList.splitOnP isLineFeed).filterMap declaredType?

/-- The types that lines declare. -/
def declaredNames (lines : List Line) : List String := lines.filterMap fun line => declaredType? line.text.toList

/-- Indentation is no part of a declaration. -/
theorem declaredType?_indented (line : Line) : declaredType? line.indented = declaredType? line.text.toList := by
  have hblanks : ∀ n : Nat, (List.replicate n ' ' ++ line.text.toList).dropWhile (· == ' ') =
      line.text.toList.dropWhile (· == ' ') := by
    intro n
    induction n with
    | zero => rfl
    | succ n ih => exact ih
  unfold Line.indented
  split
  · rename_i hempty
    rw [String.isEmpty_iff.mp hempty]
    rfl
  · rw [declaredType?, hblanks, declaredType?]

/-- Where no line has a line feed inside, the text declares what its lines declare. -/
theorem declaredTypes_renderLines {lines : List Line} (h : AllLack isLineFeed lines) :
    declaredTypes (renderLines lines) = declaredNames lines := by
  rw [declaredTypes, splitOnP_renderLines (by decide) (by decide) h, List.filterMap_append, List.filterMap_map,
    declaredNames]
  have hlast : [[]].filterMap declaredType? = [] := by decide
  rw [hlast, List.append_nil]
  exact List.filterMap_congr fun line _ => declaredType?_indented line

theorem declaredNames_append (lines more : List Line) :
    declaredNames (lines ++ more) = declaredNames lines ++ declaredNames more := List.filterMap_append

/-! ### Lines that declare nothing -/

/-- A text begins otherwise than a declaration: it has neither a blank nor the words of a declaration in front, and no
text behind it can change that. -/
structure BeginsOtherwise (s : String) : Prop where
  head : s.toList.head? ≠ some ' '
  words : ∀ word ∈ declarationWords, ¬word.toList <+: s.toList ∧ ¬s.toList <+: word.toList

theorem beginsOtherwise_ofList {cs : List Char}
    (h : cs.head? ≠ some ' ' ∧ ∀ word ∈ declarationWords, ¬word.toList <+: cs ∧ ¬cs <+: word.toList) :
    BeginsOtherwise (String.ofList cs) := by
  constructor <;> rw [String.toList_ofList]
  · exact h.1
  · exact h.2

theorem BeginsOtherwise.append {s : String} (h : BeginsOtherwise s) (t : String) : BeginsOtherwise (s ++ t) := by
  obtain ⟨hhead, hwords⟩ := h
  constructor <;> rw [String.toList_append]
  · cases hs : s.toList with
    | nil =>
      rw [hs] at hwords
      exact absurd List.nil_prefix (hwords _ List.mem_cons_self).2
    | cons c cs =>
      rw [hs] at hhead
      exact hhead
  · have hmore := List.prefix_append s.toList t.toList
    refine fun word hword => ⟨fun hbegins => ?_, fun hbegins => (hwords word hword).2 (hmore.trans hbegins)⟩
    rcases List.prefix_or_prefix_of_prefix hbegins hmore with hshorter | hlonger
    · exact (hwords word hword).1 hshorter
    · exact (hwords word hword).2 hlonger

/-- A line that begins otherwise declares nothing. -/
theorem BeginsOtherwise.declaredType?_eq_none {s : String} (h : BeginsOtherwise s) :
    declaredType? s.toList = none := by
  have hcode : s.toList.dropWhile (· == ' ') = s.toList := by
    have hhead := h.head
    cases hs : s.toList with
    | nil => rfl
    | cons c cs =>
      rw [hs] at hhead
      exact List.dropWhile_cons_of_neg (by simpa using hhead)
  refine List.findSome?_eq_none_iff.mpr fun word hword => ?_
  rw [hcode, Option.map_eq_none_iff, ← Option.not_isSome_iff_eq_none, Option.isSome_iff_exists]
  rintro ⟨rest, hrest⟩
  exact (h.words word hword).1 ⟨rest, List.isPrefixOf?_eq_some_iff_append_eq.mp hrest⟩

/-- Where a text begins with another one, so do the parts of both behind the first blanks. -/
theorem isPrefix_behind_blank : ∀ {word type behind rest : List Char}, ' ' ∉ word → ' ' ∉ type →
    word ++ ' ' :: behind <+: type ++ ' ' :: rest → behind <+: rest
  | [], [], _, _, _, _, h => (List.cons_prefix_cons.mp h).2
  | [], _ :: _, _, _, _, htype, h => absurd (List.cons_prefix_cons.mp h).1 fun he => htype (he ▸ List.mem_cons_self)
  | _ :: _, [], _, _, hword, _, h => absurd (List.cons_prefix_cons.mp h).1 fun he => hword (he ▸ List.mem_cons_self)
  | _ :: _, _ :: _, _, _, hword, htype, h =>
    isPrefix_behind_blank (fun hmem => hword (List.mem_cons_of_mem _ hmem))
      (fun hmem => htype (List.mem_cons_of_mem _ hmem)) (List.cons_prefix_cons.mp h).2

/-- A type with a brace behind it declares nothing. -/
theorem beginsOtherwise_makes {type : String} (htype : IsNameText type) (hne : type.toList ≠ []) :
    BeginsOtherwise (type ++ " \x7b provider: self.provider \x7d") := by
  have hwords : ∀ word ∈ declarationWords, '\x7b' ∉ word.toList ∧ ∃ behind,
      word.toList = "pub".toList ++ ' ' :: behind ∧ ¬behind <+: "\x7b provider: self.provider \x7d".toList := by
    refine List.forall_mem_cons.mpr ⟨⟨by decide, "trait ".toList, rfl, by decide⟩, ?_⟩
    exact List.forall_mem_singleton.mpr ⟨by decide, "struct ".toList, rfl, by decide⟩
  have hblank := htype.blank_not_mem
  constructor <;> rw [String.toList_append]
  · cases hs : type.toList with
    | nil => exact absurd hs hne
    | cons c cs =>
      rw [hs] at hblank
      exact fun hhead => hblank (Option.some.inj hhead ▸ List.mem_cons_self)
  · intro word hword
    obtain ⟨hbrace, behind, heq, hbehind⟩ := hwords word hword
    constructor
    · intro hbegins
      rw [heq] at hbegins
      exact hbehind (isPrefix_behind_blank (by decide) hblank hbegins)
    · exact fun hbegins => hbrace (hbegins.subset (List.mem_append_right _ (by decide)))

/-- No line declares a type. -/
def DeclareNone (lines : List Line) : Prop := ∀ line ∈ lines, declaredType? line.text.toList = none

theorem DeclareNone.cons {line : Line} {lines : List Line} (hline : BeginsOtherwise line.text)
    (h : DeclareNone lines) : DeclareNone (line :: lines) :=
  List.forall_mem_cons.mpr ⟨hline.declaredType?_eq_none, h⟩

theorem DeclareNone.append {lines more : List Line} (h : DeclareNone lines) (h' : DeclareNone more) :
    DeclareNone (lines ++ more) := List.forall_mem_append.mpr ⟨h, h'⟩

theorem declareNone_nil : DeclareNone [] := List.forall_mem_nil _

theorem declaredType?_blank : declaredType? blank.text.toList = none := rfl

theorem DeclareNone.blank {lines : List Line} (h : DeclareNone lines) : DeclareNone (blank :: lines) :=
  List.forall_mem_cons.mpr ⟨declaredType?_blank, h⟩

theorem DeclareNone.declaredNames_eq_nil {lines : List Line} (h : DeclareNone lines) : declaredNames lines = [] :=
  List.filterMap_eq_nil_iff.mpr h

/-! ### Lines of a struct -/

theorem Method.HasNameTexts.declareNone_lines {method : Method} (h : method.HasNameTexts) :
    DeclareNone method.lines := by
  obtain ⟨name, address, gives⟩ := method
  have hbody : declaredType? (gives.body (literal address)).toList = none := by
    cases gives with
    | scalar kind =>
      cases kind <;> exact (((beginsOtherwise_ofList (by decide)).append _).append _).declaredType?_eq_none
    | list => exact (((beginsOtherwise_ofList (by decide)).append _).append _).declaredType?_eq_none
    | struct type =>
      by_cases hne : type.toList = []
      · have hline : (type ++ " \x7b provider: self.provider \x7d").toList =
            " \x7b provider: self.provider \x7d".toList := by
          rw [String.toList_append, hne, List.nil_append]
        exact (congrArg declaredType? hline).trans (by decide)
      · exact (beginsOtherwise_makes (h.type type rfl) hne).declaredType?_eq_none
  have hlast : DeclareNone [⟨2, "\x7d"⟩] := .cons (beginsOtherwise_ofList (by decide)) declareNone_nil
  refine .cons ?_ <| .cons ?_ <| List.forall_mem_cons.mpr ⟨hbody, hlast⟩
  · exact (((beginsOtherwise_ofList (by decide)).append _).append _).append _
  · exact ((((beginsOtherwise_ofList (by decide)).append _).append _).append _).append _

theorem declareNone_makeLines (provider : String) : DeclareNone (makeLines provider) := by
  refine .cons ?_ <| .cons (beginsOtherwise_ofList (by decide)) <| .cons (beginsOtherwise_ofList (by decide))
    declareNone_nil
  exact ((((beginsOtherwise_ofList (by decide)).append _).append _).append _).append _

theorem declareNone_lookupLines (address : Address) : DeclareNone (lookupLines address) := by
  have hbody : BeginsOtherwise (lookupBody address) := by
    unfold lookupBody
    split
    · exact beginsOtherwise_ofList (by decide)
    · exact ((beginsOtherwise_ofList (by decide)).append _).append _
  refine .cons (beginsOtherwise_ofList (by decide)) <| .cons ?_ <| .cons (hbody.append _) <|
    .cons (beginsOtherwise_ofList (by decide)) declareNone_nil
  exact ((beginsOtherwise_ofList (by decide)).append _).append _

/-- No line of the methods declares a type. -/
theorem Struct.HasNameTexts.declareNone_parted {struct : Struct} (h : struct.HasNameTexts) (provider : String) :
    DeclareNone (parted (struct.methodLines provider)) := by
  refine forall_mem_parted declaredType?_blank fun group hmem => ?_
  rcases List.mem_append.mp hmem with hmem | hmem
  · rcases List.mem_append.mp hmem with hmem | hmem
    · split at hmem
      · rw [List.mem_singleton.mp hmem]
        exact declareNone_makeLines provider
      · cases hmem
    · obtain ⟨method, hmethod, rfl⟩ := List.mem_map.mp hmem
      exact (h.methods method hmethod).declareNone_lines
  · split at hmem
    · rw [List.mem_singleton.mp hmem]
      exact declareNone_lookupLines struct.address
    · cases hmem

/-- The name of a type goes up to the first character that is none of a name. -/
theorem takeWhile_isNameChar {name : String} (h : IsNameText name) {mark : Char} (hmark : isNameChar mark = false)
    (rest : List Char) : String.ofList ((name.toList ++ mark :: rest).takeWhile isNameChar) = name := by
  have hname : ∀ c ∈ name.toList, isNameChar c = true := by
    intro c hc
    unfold isNameChar
    rcases h c hc with hc | hc
    · rw [hc, Bool.true_or, Bool.true_or]
    · rw [hc]
      decide
  rw [List.takeWhile_append_of_pos hname, List.takeWhile_cons_of_neg (ne_true_of_eq_false hmark), List.append_nil,
    String.ofList_toList]

theorem declaredType?_struct {name : String} (h : IsNameText name) :
    declaredType? ("pub struct " ++ name ++ "<'a> \x7b").toList = some name := by
  rw [String.toList_append, String.toList_append, List.append_assoc]
  exact congrArg some (takeWhile_isNameChar h (by decide) _)

theorem declaredType?_trait {name : String} (h : IsNameText name) :
    declaredType? ("pub trait " ++ name ++ " \x7b").toList = some name := by
  rw [String.toList_append, String.toList_append, List.append_assoc]
  exact congrArg some (takeWhile_isNameChar h (by decide) _)

/-- Of the lines around one that declares a type none declares another. -/
theorem declaredNames_eq_singleton {front behind : List Line} {line : Line} {name : String} (hfront : DeclareNone front)
    (h : declaredType? line.text.toList = some name) (hbehind : DeclareNone behind) :
    declaredNames (front ++ line :: behind) = [name] := by
  have hcons : declaredNames (line :: behind) = name :: declaredNames behind := List.filterMap_cons_some h
  rw [declaredNames_append, hfront.declaredNames_eq_nil, List.nil_append, hcons, hbehind.declaredNames_eq_nil]

/-- **The lines of a struct declare the struct**, and nothing else. -/
theorem Struct.HasNameTexts.declaredNames_lines {struct : Struct} (h : struct.HasNameTexts) (provider : String) :
    declaredNames (struct.lines provider) = [struct.name] := by
  have hcomment : BeginsOtherwise struct.comment := by
    unfold Struct.comment
    split
    · exact beginsOtherwise_ofList (by decide)
    · exact ((beginsOtherwise_ofList (by decide)).append _).append _
  have hfront : DeclareNone [blank, ⟨1, struct.comment⟩, ⟨1, "#[derive(Clone, Copy)]"⟩] :=
    .blank <| .cons hcomment <| .cons (beginsOtherwise_ofList (by decide)) declareNone_nil
  have hself : declaredType? (Line.text ⟨1, "pub struct " ++ struct.name ++ "<'a> \x7b"⟩).toList = some struct.name :=
    declaredType?_struct h.name
  have hopening : DeclareNone [⟨2, "provider: &'a dyn " ++ provider ++ ","⟩, ⟨1, "\x7d"⟩, blank,
      ⟨1, "impl<'a> " ++ struct.name ++ "<'a> \x7b"⟩] :=
    .cons (((beginsOtherwise_ofList (by decide)).append _).append _) <| .cons (beginsOtherwise_ofList (by decide)) <|
      .blank <| .cons (((beginsOtherwise_ofList (by decide)).append _).append _) declareNone_nil
  have hlast : DeclareNone [⟨1, "\x7d"⟩] := .cons (beginsOtherwise_ofList (by decide)) declareNone_nil
  have hdeclared := declaredNames_eq_singleton hfront hself
    ((hopening.append (h.declareNone_parted provider)).append hlast)
  exact hdeclared

theorem declaredNames_traitLines {provider : String} (h : IsNameText provider) :
    declaredNames (traitLines provider) = [provider] := by
  have hfront : DeclareNone [⟨1, "/// Colon-addressed configuration source the accessors read from."⟩] :=
    .cons (beginsOtherwise_ofList (by decide)) declareNone_nil
  have hbehind : DeclareNone (traitLines provider).tail.tail :=
    .cons (beginsOtherwise_ofList (by decide)) <| .cons (beginsOtherwise_ofList (by decide)) <| .blank <|
      .cons (beginsOtherwise_ofList (by decide)) <| .cons (beginsOtherwise_ofList (by decide)) <|
      .cons (beginsOtherwise_ofList (by decide)) declareNone_nil
  have hself : declaredType? (Line.text ⟨1, "pub trait " ++ provider ++ " \x7b"⟩).toList = some provider :=
    declaredType?_trait h
  have hdeclared := declaredNames_eq_singleton hfront hself hbehind
  exact hdeclared

/-- **The lines of a module declare its trait and its structs.** -/
theorem Module.HasNameTexts.declaredNames_lines {m : Module} (h : m.HasNameTexts) :
    declaredNames m.lines = m.provider :: m.structs.map Struct.name := by
  have hfront : DeclareNone [header, blank, openingLine m.name,
      ⟨1, "#![allow(dead_code, non_camel_case_types, clippy::all)]"⟩, blank] :=
    .cons (((beginsOtherwise_ofList (by decide)).append _).append _) <| .blank <|
      .cons (((beginsOtherwise_ofList (by decide)).append _).append _) <| .cons (beginsOtherwise_ofList (by decide)) <|
      .blank declareNone_nil
  have hlast : DeclareNone [⟨0, "\x7d"⟩] := .cons (beginsOtherwise_ofList (by decide)) declareNone_nil
  have hstructs : declaredNames (m.structs.flatMap (Struct.lines m.provider)) = m.structs.map Struct.name := by
    rw [declaredNames, List.filterMap_flatMap, List.map_eq_flatMap]
    exact List.flatMap_congr fun struct hmem => (h.structs struct hmem).declaredNames_lines m.provider
  rw [Module.lines, declaredNames_append, declaredNames_append, declaredNames_append, hfront.declaredNames_eq_nil,
    declaredNames_traitLines h.provider, hstructs, hlast.declaredNames_eq_nil, List.append_nil]
  rfl

/-! ## The text of a document -/

/-- **The text of a document declares the trait, the struct of the root and one for every section inside**, in the order
of the sections. -/
theorem declaredTypes_source (options : Options) {root : Section} (hroot : root.HasWellFormedNames) :
    declaredTypes (source options root) = (claimProvider options (.empty "")).1 ::
      (planStructs (claimRoot options (.empty "")).1 "" true (claimRoot options (.empty "")).2 root).1.map
        Struct.name := by
  have hnames := @plan_names options (.empty "") root (fun _ h => by cases h) hroot
  have htext : source options root = renderLines (Module.plan options (.empty "") root).1.lines := String.empty_append
  rw [htext, declaredTypes_renderLines hnames.allLack_lines, hnames.declaredNames_lines, plan_eq]

end TypedSettings.Structs
