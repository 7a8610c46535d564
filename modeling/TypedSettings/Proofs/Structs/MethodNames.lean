import TypedSettings.Proofs.Structs.Reading
import TypedSettings.Proofs.Structs.SnakeCase

/-!
# The names of methods

The method names of a struct are given out in lower case, each once, and clear of the names of the other methods; only
then is a word of the language escaped. An escape makes no two names the same: what it puts in front or behind is in no
identifier (`plainName_escaped`).

* `isMethodName_escaped`: what an escape makes of a name in lower case can be the name of a method;
* `planMethods_claims`: the names behind those of the methods, and what is known of them;
* `declaredMethods_write`: the methods that the text of a module declares for each section.
-/

namespace TypedSettings.Structs

open Text

/-! ## Legal names -/

/-- The words that the language keeps for itself, in one edition of it or another. -/
def languageWords : List String :=
  [ "abstract", "as", "async", "await", "become", "box", "break", "const", "continue", "crate", "do", "dyn", "else",
    "enum", "extern", "false", "final", "fn", "for", "gen", "if", "impl", "in", "let", "loop", "macro", "match", "mod",
    "move", "mut", "override", "priv", "pub", "ref", "return", "self", "Self", "static", "struct", "super", "trait",
    "true", "try", "type", "typeof", "unsafe", "unsized", "use", "virtual", "where", "while", "yield" ]

/-- A name that a method can have: an identifier that is no word of the language, such a word as a raw name, or one that
has no raw name with an underscore behind it. -/
inductive IsMethodName : String → Prop
  | word {name : String} : Identifier.isWellFormed name = true → name ∉ languageWords → IsMethodName name
  | raw {word : String} : word ∈ languageWords → word ∉ ["crate", "self", "Self", "super"] → IsMethodName ("r#" ++ word)
  | marked {word : String} : word ∈ ["crate", "self", "super"] → IsMethodName (word ++ "_")

/-- A name as it is given out to a method, before it is escaped. -/
structure IsSnakeName (name : String) : Prop where
  wellFormed : Identifier.isWellFormed name = true
  lower : Lacks Char.isUpper name

theorem isSnakeName_snakeCase {name : String} (h : Identifier.isWellFormed name = true) :
    IsSnakeName (snakeCase name) := ⟨isWellFormed_snakeCase h, lacks_isUpper_snakeCase name⟩

/-- A number behind an underscore keeps a name what it is. -/
theorem IsSnakeName.freeName {scope : Scope} (hseparator : scope.separator = "_") {name : String}
    (h : IsSnakeName name) : IsSnakeName (scope.freeName name) := by
  rcases scope.freeName_eq name with heq | ⟨k, heq⟩
  · rw [heq]
    exact h
  · have hlist : (scope.numbered name k).toList = name.toList ++ '_' :: Nat.toDigits 10 k := by
      rw [Scope.toList_numbered, hseparator, List.append_assoc]
      rfl
    rw [heq]
    constructor
    · exact Identifier.isWellFormed_of_toList_append_underscore h.wellFormed hlist Nat.toDigits_ne_nil
        fun _ => Identifier.isWordChar_of_mem_toDigits
    · intro c hc
      rw [hlist] at hc
      rcases List.mem_append.mp hc with hc | hc
      · exact h.lower c hc
      · rcases List.mem_cons.mp hc with rfl | hc
        · rfl
        · exact isUpper_eq_false_of_isDigit (Nat.isDigit_of_mem_toDigits (by decide) (by decide) hc)

/-! ## Escaped names -/

/-- The three ways to escape a name. -/
theorem escaped_cases (name : String) :
    (escaped name = name ∧ name ∉ languageWords) ∨
    (escaped name = "r#" ++ name ∧ name ∈ languageWords ∧ name ∉ ["crate", "self", "Self", "super"]) ∨
    (escaped name = name ++ "_" ∧ name ∈ ["crate", "self", "Self", "super"]) := by
  have hwords : ∀ word ∈ languageWords, word ∈ strictKeywords ∨ word ∈ keywords := by decide
  have hkeywords : ∀ word ∈ keywords, word ∈ languageWords := by decide
  rw [escaped]
  split_ifs with hstrict hkeyword
  · exact Or.inr (Or.inr ⟨rfl, List.contains_iff_mem.mp hstrict⟩)
  · refine Or.inr (Or.inl ⟨rfl, hkeywords name (List.contains_iff_mem.mp hkeyword), fun hmem => hstrict ?_⟩)
    exact List.contains_iff_mem.mpr hmem
  · refine Or.inl ⟨rfl, fun hmem => ?_⟩
    rcases hwords name hmem with hmem | hmem
    · exact hstrict (List.contains_iff_mem.mpr hmem)
    · exact hkeyword (List.contains_iff_mem.mpr hmem)

/-- **A method can have the escaped name.** -/
theorem isMethodName_escaped {name : String} (h : IsSnakeName name) : IsMethodName (escaped name) := by
  rcases escaped_cases name with ⟨heq, hfree⟩ | ⟨heq, hword, hraw⟩ | ⟨heq, hmarked⟩
  · rw [heq]
    exact .word h.wellFormed hfree
  · rw [heq]
    exact .raw hword hraw
  · have hupper : ¬Lacks Char.isUpper "Self" := fun hlower => absurd (hlower 'S' (by decide)) (by decide)
    have hne : name ≠ "Self" := by
      rintro rfl
      exact hupper h.lower
    rw [heq]
    refine .marked ?_
    simp only [List.mem_cons, List.not_mem_nil, or_false] at hmarked ⊢
    tauto

/-- The name that is escaped. -/
def plainName (name : String) : String :=
  if '#' ∈ name.toList then String.ofList (name.toList.drop 2)
  else if name.toList.getLast? = some '_' then String.ofList name.toList.dropLast
  else name

/-- **An escaped name shows the identifier that is escaped**: none has the mark of a raw name, nor an underscore at its
end. -/
theorem plainName_escaped {name : String} (h : Identifier.isWellFormed name = true) :
    plainName (escaped name) = name := by
  have hmark : '#' ∉ name.toList := (isNameText_of_isWellFormed h).not_mem (by decide)
  have hlast := (Identifier.isWellFormed_iff.mp h).2.2.2
  rcases escaped_cases name with ⟨heq, -⟩ | ⟨heq, -⟩ | ⟨heq, -⟩
  · rw [heq, plainName, if_neg hmark, if_neg hlast]
  · have hlist : ("r#" ++ name).toList = 'r' :: '#' :: name.toList := String.toList_append
    rw [heq, plainName, hlist, if_pos (by simp), List.drop_succ_cons, List.drop_succ_cons, List.drop_zero,
      String.ofList_toList]
  · have hlist : (name ++ "_").toList = name.toList ++ ['_'] := String.toList_append
    have hfree : '#' ∉ (name ++ "_").toList := by
      rw [hlist, List.mem_append, not_or]
      exact ⟨hmark, by decide⟩
    rw [heq, plainName, if_neg hfree, hlist, List.getLast?_concat, if_pos rfl, List.dropLast_concat,
      String.ofList_toList]

/-- Different identifiers are different when they are escaped. -/
theorem nodup_map_escaped {names : List String} (hnames : ∀ name ∈ names, IsSnakeName name) (h : names.Nodup) :
    (names.map escaped).Nodup := by
  refine h.map_on fun name hname other hother heq => ?_
  rw [← plainName_escaped (hnames name hname).wellFormed, heq, plainName_escaped (hnames other hother).wellFormed]

/-! ## The names of planned methods -/

/-- The first accessor gets its name first. -/
theorem exists_planMethods_cons (chain : String) (names types : Scope) (accessor : Accessor)
    (accessors : List Accessor) : ∃ gives types', (planMethods chain names types (accessor :: accessors)).1 =
      ⟨escaped (names.freeName (snakeCase accessor.identifier.text)), accessor.address, gives⟩ ::
        (planMethods chain (names.claim (snakeCase accessor.identifier.text)).2 types' accessors).1 := by
  obtain ⟨identifier, key, address, access⟩ := accessor
  cases access <;> exact ⟨_, _, rfl⟩

/-- **The names of methods are escaped from names in lower case, each of them given out once.** -/
theorem planMethods_claims (chain : String) : ∀ {accessors : List Accessor} {names types : Scope},
    (∀ accessor ∈ accessors, accessor.IsWellNamed) → names.separator = "_" →
    ∃ given names', (planMethods chain names types accessors).1.map Method.name = given.map escaped ∧
      given.length = accessors.length ∧ (∀ name ∈ given, IsSnakeName name) ∧ names.Grows given names'
  | [], names, _, _, _ => ⟨[], names, rfl, rfl, List.forall_mem_nil _, .refl names⟩
  | accessor :: accessors, names, types, haccessors, hseparator => by
    obtain ⟨haccessor, hrest⟩ := List.forall_mem_cons.mp haccessors
    obtain ⟨gives, types', hmethods⟩ := exists_planMethods_cons chain names types accessor accessors
    have hclaim := names.grows_claim (snakeCase accessor.identifier.text)
    obtain ⟨given, names', hnames, hlength, hsnake, hgrows⟩ :=
      @planMethods_claims chain accessors (names.claim (snakeCase accessor.identifier.text)).2 types' hrest hseparator
    refine ⟨_ :: given, names', ?_, congrArg (· + 1) hlength, ?_, hclaim.trans hgrows⟩
    · rw [hmethods, List.map_cons, hnames]
      rfl
    · exact List.forall_mem_cons.mpr ⟨(isSnakeName_snakeCase haccessor).freeName hseparator, hsnake⟩

/-- The names that are kept from the accessors of a section, which are in use before one of them gets its name. -/
def keptNames (isRoot hasLookup : Bool) : List String :=
  (if isRoot then [makeName] else []) ++ if hasLookup then [lookupName] else []

theorem nodup_keptNames (isRoot hasLookup : Bool) : (keptNames isRoot hasLookup).Nodup := by
  cases isRoot <;> cases hasLookup <;> decide

theorem map_escaped_keptNames (isRoot hasLookup : Bool) :
    (keptNames isRoot hasLookup).map escaped = keptNames isRoot hasLookup := by
  cases isRoot <;> cases hasLookup <;> decide

theorem isSnakeName_of_mem_keptNames {isRoot hasLookup : Bool} {name : String}
    (h : name ∈ keptNames isRoot hasLookup) : IsSnakeName name := by
  have hname : name = makeName ∨ name = lookupName := by
    rcases List.mem_append.mp h with h | h
    · exact Or.inl (by split at h <;> simp_all)
    · exact Or.inr (by split at h <;> simp_all)
  rcases hname with rfl | rfl <;> exact ⟨by decide, lacks_ofList (by decide)⟩

theorem holds_methodScope {isRoot hasLookup : Bool} {name : String} :
    (methodScope isRoot hasLookup).holds name = true ↔ name ∈ keptNames isRoot hasLookup := by
  have hnone : (Scope.empty "_").holds name = false := rfl
  cases isRoot <;> cases hasLookup <;> simp [methodScope, keptNames, Scope.holds_reserve, hnone, or_comm]

/-- The names of all methods of a struct: of the one that makes it, of those of the accessors and of the lookup. -/
def Struct.methodNames (struct : Struct) : List String :=
  (if struct.isRoot then [makeName] else []) ++ struct.methods.map Method.name ++
    if struct.hasLookup then [lookupName] else []

/-- What methods with these names are for a section: between the one that makes the root's struct and the lookup, which
has its name where there is one, stands one for every accessor; all names are different, and methods can have them. -/
structure DeclaresMethods (isRoot : Bool) (s : Section) (declared : List String) : Prop where
  own : ∃ own, declared = (if isRoot then ["new"] else []) ++ own ++ (if s.hasLookup then ["get"] else []) ∧
    own.length = s.accessors.length
  distinct : declared.Nodup
  legal : ∀ name ∈ declared, IsMethodName name

/-- **The methods of a struct have different names**, and methods can have them, whatever the identifiers of the
accessors are and however often each of them stands there. -/
theorem Struct.Follows.declaresMethods {isRoot : Bool} {s : Section} {struct : Struct} (h : struct.Follows isRoot s)
    (hs : ∀ accessor ∈ s.accessors, accessor.IsWellNamed) : DeclaresMethods isRoot s struct.methodNames := by
  obtain ⟨chain, types, hmethods⟩ := h.methods
  have hseparator : (methodScope struct.isRoot struct.hasLookup).separator = "_" := by
    cases struct.isRoot <;> cases struct.hasLookup <;> rfl
  obtain ⟨given, names', hnames, hlength, hsnake, hgrows⟩ := @planMethods_claims chain _ _ types hs hseparator
  rw [← hmethods] at hnames
  have hperm : struct.methodNames.Perm ((keptNames struct.isRoot struct.hasLookup ++ given).map escaped) := by
    rw [List.map_append, map_escaped_keptNames, ← hnames, keptNames, List.append_assoc, methodNames, List.append_assoc]
    exact List.perm_append_comm.append_left _
  have hwanted : ∀ name ∈ keptNames struct.isRoot struct.hasLookup ++ given, IsSnakeName name := by
    intro name hname
    rcases List.mem_append.mp hname with hname | hname
    · exact isSnakeName_of_mem_keptNames hname
    · exact hsnake name hname
  have hdistinct : (keptNames struct.isRoot struct.hasLookup ++ given).Nodup := by
    refine List.nodup_append.mpr ⟨nodup_keptNames _ _, hgrows.nodup, ?_⟩
    rintro name hkept _ hgiven rfl
    exact ne_true_of_eq_false (hgrows.fresh name hgiven) (holds_methodScope.mpr hkept)
  refine ⟨⟨struct.methods.map Method.name, ?_, ?_⟩, ?_, ?_⟩
  · rw [← h.isRoot, ← h.hasLookup]
    rfl
  · rw [hnames, List.length_map, hlength]
  · exact hperm.nodup_iff.mpr (nodup_map_escaped hwanted hdistinct)
  · intro name hname
    obtain ⟨wanted, hmem, rfl⟩ := List.mem_map.mp (hperm.mem_iff.mp hname)
    exact isMethodName_escaped (hwanted wanted hmem)

/-! ## Declared methods -/

/-- The names of the methods that the lines of a struct open, in their order. -/
def declaredMethods (lines : List Line) : List String :=
  lines.filterMap fun line => (signature? 2 line).map Prod.fst

theorem declaredMethods_append (lines more : List Line) :
    declaredMethods (lines ++ more) = declaredMethods lines ++ declaredMethods more := List.filterMap_append

/-- Empty lines between groups declare nothing. -/
theorem declaredMethods_parted : ∀ groups : List (List Line),
    declaredMethods (parted groups) = groups.flatMap declaredMethods
  | [] => rfl
  | [group] => by
    rw [parted, List.intercalate_singleton, List.flatMap_singleton]
  | group :: group' :: groups => by
    have hblank : declaredMethods [blank] = [] := rfl
    have hrest := declaredMethods_parted (group' :: groups)
    rw [parted] at hrest
    rw [parted, List.intercalate_cons_cons, declaredMethods_append, declaredMethods_append, hblank, List.append_nil,
      hrest, List.flatMap_cons (x := group)]

/-- A line that opens a method declares its name, whatever stands behind the bracket. -/
theorem declaredMethods_cons {name : String} (hname : '(' ∉ name.toList) (rest : String) (lines : List Line) :
    declaredMethods (⟨2, "pub fn " ++ name ++ "(" ++ rest⟩ :: lines) = name :: declaredMethods lines := by
  have htext : ("pub fn " ++ name ++ "(" ++ rest).toList = "pub fn ".toList ++ (name.toList ++ '(' :: rest.toList) := by
    simp only [String.toList_append, List.append_assoc]
    rfl
  have happart : Apart ["pub fn "] := by
    unfold Apart
    decide
  have hopen : ∀ c ∈ name.toList, (c != '(') = true := fun c hc => bne_iff_ne.mpr fun he => hname (he ▸ hc)
  have hread : (signature? 2 ⟨2, "pub fn " ++ name ++ "(" ++ rest⟩).map Prod.fst = some name := by
    rw [signature?, if_pos rfl, htext, behindAny?_append happart List.mem_cons_self, Option.map_some, Option.map_some,
      List.takeWhile_append_of_pos hopen, List.takeWhile_cons_of_neg (by decide), List.append_nil, String.ofList_toList]
  exact List.filterMap_cons_some hread

/-- A line that opens no method declares none. -/
theorem declaredMethods_cons_of_eq_none {line : Line} (h : signature? 2 line = none) (lines : List Line) :
    declaredMethods (line :: lines) = declaredMethods lines :=
  List.filterMap_cons_none (by rw [h, Option.map_none])

theorem declaredMethods_method {method : Method} (h : '(' ∉ method.name.toList) :
    declaredMethods method.lines = [method.name] := by
  have hcomment : signature? 2 ⟨2, "/// Configuration " ++ method.gives.addressWord ++ ": " ++ literal method.address⟩ =
      none := by
    rw [String.append_assoc, String.append_assoc]
    exact signature?_eq_none (by decide) _
  have hline : "pub fn " ++ method.name ++ "(&self) -> " ++ method.gives.type ++ " \x7b" =
      "pub fn " ++ method.name ++ "(" ++ ("&self) -> " ++ method.gives.type ++ " \x7b") := by
    refine String.toList_inj.mp ?_
    simp only [String.toList_append, List.append_assoc]
    rfl
  rw [Method.lines, declaredMethods_cons_of_eq_none hcomment, hline, declaredMethods_cons h,
    declaredMethods_cons_of_eq_none (signature?_eq_none_of_ne (show 3 ≠ 2 by decide))]
  rfl

theorem declaredMethods_makeLines (provider : String) : declaredMethods (makeLines provider) = [makeName] := by
  have hline : "pub fn " ++ makeName ++ "(provider: &'a dyn " ++ provider ++ ") -> Self \x7b" =
      "pub fn " ++ makeName ++ "(" ++ ("provider: &'a dyn " ++ provider ++ ") -> Self \x7b") := by
    refine String.toList_inj.mp ?_
    simp only [String.toList_append, List.append_assoc]
    rfl
  rw [makeLines, hline, declaredMethods_cons (by decide)]
  rfl

theorem declaredMethods_lookupLines (address : Address) : declaredMethods (lookupLines address) = [lookupName] := by
  have hline : "pub fn " ++ lookupName ++ "(&self, key: &str) -> String \x7b" =
      "pub fn " ++ lookupName ++ "(" ++ "&self, key: &str) -> String \x7b" := by rfl
  rw [lookupLines, declaredMethods_cons_of_eq_none (by decide), hline, declaredMethods_cons (by decide),
    declaredMethods_cons_of_eq_none (signature?_eq_none_of_ne (show 3 ≠ 2 by decide))]
  rfl

/-- **The lines of a struct open its methods**, one after the other. -/
theorem declaredMethods_struct (provider : String) {struct : Struct}
    (h : ∀ method ∈ struct.methods, '(' ∉ method.name.toList) :
    declaredMethods (struct.lines provider) = struct.methodNames := by
  have hown : (struct.methods.map Method.lines).flatMap declaredMethods = struct.methods.map Method.name := by
    rw [List.flatMap_map, List.map_eq_flatMap]
    exact List.flatMap_congr fun method hmem => declaredMethods_method (h method hmem)
  have hmake : (if struct.isRoot then [makeLines provider] else []).flatMap declaredMethods =
      if struct.isRoot then [makeName] else [] := by
    split
    · rw [List.flatMap_singleton, declaredMethods_makeLines]
    · rfl
  have hlookup : (if struct.hasLookup then [lookupLines struct.address] else []).flatMap declaredMethods =
      if struct.hasLookup then [lookupName] else [] := by
    split
    · rw [List.flatMap_singleton, declaredMethods_lookupLines]
    · rfl
  have hprovider : signature? 2 ⟨2, "provider: &'a dyn " ++ provider ++ ","⟩ = none := by
    rw [String.append_assoc]
    exact signature?_eq_none (by decide) _
  have hfront : declaredMethods [ blank, ⟨1, struct.comment⟩, ⟨1, "#[derive(Clone, Copy)]"⟩,
      ⟨1, "pub struct " ++ struct.name ++ "<'a> \x7b"⟩, ⟨2, "provider: &'a dyn " ++ provider ++ ","⟩, ⟨1, "\x7d"⟩,
      blank, ⟨1, "impl<'a> " ++ struct.name ++ "<'a> \x7b"⟩ ] = [] := by
    refine List.filterMap_eq_nil_iff.mpr fun line hmem => Option.map_eq_none_iff.mpr ?_
    simp only [List.mem_cons, List.not_mem_nil, or_false] at hmem
    rcases hmem with rfl | rfl | rfl | rfl | rfl | rfl | rfl | rfl
    any_goals first | exact hprovider | rfl
  have hbrace : declaredMethods [⟨1, "\x7d"⟩] = [] := rfl
  rw [Struct.lines, declaredMethods_append, declaredMethods_append, hfront, hbrace, List.nil_append, List.append_nil,
    declaredMethods_parted, Struct.methodLines, List.flatMap_append, List.flatMap_append, hmake, hown, hlookup,
    Struct.methodNames]

/-! ## The text of a document -/

theorem bracket_not_mem_of_isMethodName {name : String} (h : IsMethodName name) : '(' ∉ name.toList := by
  have hwords : ∀ word ∈ languageWords, '(' ∉ word.toList := by decide
  cases h with
  | word hname => exact (isNameText_of_isWellFormed hname).not_mem (by decide)
  | raw hword =>
    rw [String.toList_append, List.mem_append, not_or]
    exact ⟨by decide, hwords _ hword⟩
  | marked hword =>
    rw [String.toList_append, List.mem_append, not_or]
    exact ⟨(show ∀ word ∈ ["crate", "self", "super"], '(' ∉ word.toList by decide) _ hword, by decide⟩

/-- The lines of a struct that follows the plan for a section declare its methods. -/
theorem Struct.Follows.declaredMethods_lines {isRoot : Bool} {s : Section} {struct : Struct}
    (h : struct.Follows isRoot s) (provider : String) (hs : ∀ accessor ∈ s.accessors, accessor.IsWellNamed) :
    declaredMethods (struct.lines provider) = struct.methodNames := by
  refine declaredMethods_struct provider fun method hmem => ?_
  refine bracket_not_mem_of_isMethodName ((h.declaresMethods hs).legal method.name ?_)
  exact List.mem_append_left _ (List.mem_append_right _ (List.mem_map_of_mem hmem))

/-- What is read of the methods of a struct has their names. -/
theorem map_name_shown (provider : String) (struct : Struct) :
    (struct.shown provider).methods.map ReadMethod.name = struct.methodNames := by
  rw [Struct.shown, Struct.methodNames, List.map_append, List.map_append, List.map_map]
  congr 1
  · congr 1
    split <;> rfl
  · split <;> rfl

/-- **Every struct declares methods with names of their own**, under which methods can be declared, whatever has been
written before: where the accessors of its section have well-formed identifiers, whichever of them are the same. Where
all identifiers are well-formed, the text reads back to these methods. -/
theorem declaredMethods_write (options : Options) (writer : Writer) (root : Section) : ∃ provider first blocks,
    (writer.write options root).text = writer.text ++ renderLines (moduleLines options provider (first :: blocks)) ∧
      ((∀ accessor ∈ root.accessors, accessor.IsWellNamed) → DeclaresMethods true root (declaredMethods first)) ∧
      List.Forall₂ (fun s block => (∀ accessor ∈ s.accessors, accessor.IsWellNamed) →
        DeclaresMethods false s (declaredMethods block)) root.walk.tail blocks ∧
      (root.HasWellFormedNames → IsNameText writer.types.separator →
        (readStructs (readLines isLineFeed (renderLines (moduleLines options provider (first :: blocks))))).map
          (fun struct => struct.methods.map ReadMethod.name) = (first :: blocks).map declaredMethods) := by
  obtain ⟨struct, inner, hstructs, hfirst, hinner⟩ := plan_follows options writer.types root
  obtain ⟨m, hm⟩ : ∃ m, m = (Module.plan options writer.types root).1 := ⟨_, rfl⟩
  have hlines : m.lines = moduleLines options m.provider (m.structs.map (Struct.lines m.provider)) :=
    Module.lines_eq (by rw [hm, plan_eq])
  have htext : (writer.write options root).text = writer.text ++ renderLines m.lines := by
    rw [hm]
    rfl
  have hread : root.HasWellFormedNames → IsNameText writer.types.separator →
      (readStructs (readLines isLineFeed (renderLines m.lines))).map
        (fun struct => struct.methods.map ReadMethod.name) =
          (m.structs.map (Struct.lines m.provider)).map declaredMethods := by
    intro hroot htypes
    have hplan := readStructs_plan options htypes hroot
    rw [← hm, Module.text] at hplan
    rw [hplan, List.map_map, List.map_map]
    refine List.map_congr_left fun struct' hmem => ?_
    obtain ⟨isRoot, s, hs, hfollows⟩ := exists_follows (hm ▸ hmem)
    rw [Function.comp_apply, Function.comp_apply, map_name_shown,
      hfollows.declaredMethods_lines m.provider (hroot s hs)]
  rw [← hm] at hstructs
  rw [hlines, hstructs, List.map_cons] at htext hread
  refine ⟨m.provider, _, _, htext, fun hs => ?_, ?_, hread⟩
  · rw [hfirst.declaredMethods_lines m.provider hs]
    exact hfirst.declaresMethods hs
  · rw [walk_eq, List.tail_cons]
    refine List.forall₂_map_right_iff.mpr (hinner.imp fun s struct h hs => ?_)
    rw [h.declaredMethods_lines m.provider hs]
    exact h.declaresMethods hs

theorem declaredMethods_write_hostile : Section.hostile.HasWellFormedNames ∧ ∃ provider first blocks,
    source {} Section.hostile = renderLines (moduleLines {} provider (first :: blocks)) ∧
      DeclaresMethods true Section.hostile (declaredMethods first) ∧
      List.Forall₂ (fun s block => DeclaresMethods false s (declaredMethods block)) Section.hostile.walk.tail blocks ∧
      (readStructs (readLines isLineFeed (source {} Section.hostile))).map
        (fun struct => struct.methods.map ReadMethod.name) = (first :: blocks).map declaredMethods := by
  have hnames := Section.hasWellFormedNames_hostile
  obtain ⟨provider, first, blocks, htext, hfirst, hblocks, hread⟩ :=
    declaredMethods_write {} Writer.start Section.hostile
  have hinner : ∀ s ∈ Section.hostile.walk.tail, ∀ accessor ∈ s.accessors, accessor.IsWellNamed :=
    fun s hs => hnames s (List.mem_of_mem_tail hs)
  have hsource : source {} Section.hostile = renderLines (moduleLines {} provider (first :: blocks)) :=
    htext.trans String.empty_append
  rw [hsource]
  refine ⟨hnames, provider, first, blocks, rfl, hfirst (hnames _ (mem_walk_self _)), ?_,
    hread hnames (isNameText_ofList rfl)⟩
  exact (List.forall₂_and_left _ _).mpr ⟨hinner, hblocks⟩ |>.imp fun s block h => h.2 h.1

/-- Words of the language and the names that are kept, and identifiers that are the same in lower case. -/
example : (Module.plan {} (Scope.empty "") ⟨.root, 0, ["Get", "New", "Self", "Type", "APIKey", "ApiKey"].map fun key =>
      ⟨⟨key⟩, key, ⟨[key]⟩, .list⟩, true⟩).1.structs.map Struct.methodNames =
    [["new", "get_2", "new_2", "self_", "r#type", "api_key", "api_key_2", "get"]] := by rfl

end TypedSettings.Structs
