import TypedSettings.Proofs.Structs.Declarations

/-!
# The names of types

The trait and the struct of the root have the names that the options ask for, up to an underscore or a number. A nested
section has a name of its own making: the identifiers that lead to it, with a fixed end.

* `planStructs_nested`: the names of nested sections are legal, and longer than the words of the language;
* `ArePlain.not_mem_iff`: the trait and the struct of the root have none of some words for a name just where the options
  ask for none;
* `declaredTypes_areLegal`: what this says of the words that the language keeps for itself;
* `declaredTypes_shadow_iff`: what it says of the types that the generated code takes for granted.
-/

namespace TypedSettings.Structs

open Text

/-! ## Legal names -/

/-- A name of letters, digits and underscores, which starts with a letter, or with an underscore and a digit. -/
structure IsLegalName (name : String) : Prop where
  start : Identifier.startsWell name.toList = true
  chars : IsNameText name

theorem isLegalName_of_isWellFormed {name : String} (h : Identifier.isWellFormed name = true) : IsLegalName name :=
  ⟨(Identifier.isWellFormed_iff.mp h).1, isNameText_of_isWellFormed h⟩

theorem IsLegalName.append {name more : String} (h : IsLegalName name) (hmore : IsNameText more) :
    IsLegalName (name ++ more) := by
  refine ⟨?_, h.chars.append hmore⟩
  rw [String.toList_append]
  exact Identifier.startsWell_append h.start

/-- What a scope gives out for a legal name is one. -/
theorem IsLegalName.freeName {scope : Scope} (hseparator : scope.separator = "") {name : String}
    (h : IsLegalName name) : IsLegalName (scope.freeName name) := by
  rcases scope.freeName_eq name with heq | ⟨k, heq⟩
  · rw [heq]
    exact h
  · rw [heq, Scope.numbered, hseparator, String.append_empty]
    exact h.append (isNameText_toString k)

/-- A type has the identifier that the options ask for, with an underscore behind a word that cannot be written raw. -/
theorem typeName_cases (wanted : String) :
    typeName wanted = (Identifier.ofKey wanted).text ∧ (Identifier.ofKey wanted).text ∉ strictKeywords ∨
      typeName wanted = (Identifier.ofKey wanted).text ++ "_" ∧ (Identifier.ofKey wanted).text ∈ strictKeywords := by
  rw [typeName]
  split_ifs with hstrict
  · exact Or.inr ⟨rfl, List.contains_iff_mem.mp hstrict⟩
  · exact Or.inl ⟨rfl, fun hmem => hstrict (List.contains_iff_mem.mpr hmem)⟩

theorem isLegalName_typeName (wanted : String) : IsLegalName (typeName wanted) := by
  have hname := isLegalName_of_isWellFormed (Identifier.isWellFormed_ofKey wanted)
  rcases typeName_cases wanted with ⟨heq, -⟩ | ⟨heq, -⟩
  · rw [heq]
    exact hname
  · rw [heq]
    exact hname.append (isNameText_ofList (by decide))

/-- A type is not given the name of a word that cannot be written raw: an underscore keeps it off, and so does a
number. -/
theorem freeName_typeName_not_mem (scope : Scope) (wanted : String) :
    scope.freeName (typeName wanted) ∉ strictKeywords := by
  rcases scope.freeName_eq (typeName wanted) with heq | ⟨k, heq⟩
  · rw [heq]
    rcases typeName_cases wanted with ⟨heq, hfree⟩ | ⟨heq, -⟩
    · rw [heq]
      exact hfree
    · have hlines : ∀ word ∈ strictKeywords, Lacks (· == '_') word := by decide
      rw [heq]
      exact not_mem_of_not_lacks hlines (not_lacks_append_right _ (by decide))
  · have hdigits : ∀ word ∈ strictKeywords, Lacks Char.isDigit word := by decide
    rw [heq]
    exact not_mem_of_not_lacks hdigits (not_lacks_append_right _ (not_lacks_isDigit_toString k))

/-! ## Nested sections -/

/-- The name of the struct of a nested section: it is legal, and longer than any word of the language. -/
structure IsNestedName (name : String) : Prop where
  legal : IsLegalName name
  long : 8 < name.toList.length

theorem IsNestedName.not_mem {name : String} (h : IsNestedName name) {words : List String}
    (hwords : ∀ word ∈ words, word.toList.length ≤ 8) : name ∉ words := fun hmem =>
  absurd (hwords name hmem) (Nat.not_le_of_lt h.long)

/-- The identifiers that lead to a section, one behind the other: none for the root, and a legal name for any other. -/
def IsChain (chain : String) : Prop := chain = "" ∨ IsLegalName chain

theorem IsChain.append {chain : String} (h : IsChain chain) {identifier : String}
    (hidentifier : Identifier.isWellFormed identifier = true) : IsLegalName (chain ++ identifier) := by
  rcases h with rfl | h
  · rw [String.empty_append]
    exact isLegalName_of_isWellFormed hidentifier
  · exact h.append (isNameText_of_isWellFormed hidentifier)

/-- The name that a nested section gets. -/
theorem isNestedName_freeName {types : Scope} (htypes : types.separator = "") {chain : String} (hchain : IsChain chain)
    {identifier : Identifier} (hidentifier : Identifier.isWellFormed identifier.text = true) :
    IsNestedName (types.freeName (nestedTypeName chain identifier)) := by
  have hfront := hchain.append hidentifier
  have hlegal : IsLegalName (nestedTypeName chain identifier) := hfront.append (isNameText_ofList (by decide))
  refine ⟨hlegal.freeName htypes, ?_⟩
  have hlong : 8 < (nestedTypeName chain identifier).toList.length := by
    have hpos : 0 < (chain ++ identifier.text).toList.length := by
      refine List.length_pos_of_ne_nil fun hnil => ?_
      have hstart := hfront.start
      rw [hnil] at hstart
      cases hstart
    have hend : "Settings".toList.length = 8 := rfl
    rw [nestedTypeName, String.toList_append, List.length_append, hend]
    omega
  rcases types.freeName_eq (nestedTypeName chain identifier) with heq | ⟨k, heq⟩
  · rw [heq]
    exact hlong
  · rw [heq, Scope.toList_numbered, List.length_append, List.length_append]
    omega

/-- The types that methods give are those of nested sections. -/
theorem planMethods_nested {chain : String} (hchain : IsChain chain) : ∀ {accessors : List Accessor}
    {names types : Scope}, (∀ accessor ∈ accessors, accessor.Each Accessor.IsWellNamed) → types.separator = "" →
      ∀ type ∈ (planMethods chain names types accessors).1.filterMap Method.type?, IsNestedName type
  | [], _, _, _, _ => List.forall_mem_nil _
  | ⟨identifier, key, address, access⟩ :: accessors, names, types, haccessors, htypes => by
    obtain ⟨haccessor, hrest⟩ := List.forall_mem_cons.mp haccessors
    have hbehind : ∀ {types : Scope}, types.separator = "" →
        ∀ type ∈ (planMethods chain (names.claim (snakeCase identifier.text)).2 types accessors).1.filterMap
          Method.type?, IsNestedName type := fun htypes => planMethods_nested hchain hrest htypes
    cases access with
    | scalar kind => exact hbehind htypes
    | list => exact hbehind htypes
    | nested child =>
      exact List.forall_mem_cons.mpr ⟨isNestedName_freeName htypes hchain haccessor.self, hbehind htypes⟩

mutual

/-- **All structs but the first have names of nested sections**, where the identifiers are well-formed. -/
theorem planStructs_nested : ∀ {s : Section} (name : String) {chain : String} (isRoot : Bool) {types : Scope},
    s.HasWellFormedNames → IsChain chain → types.separator = "" →
    ∀ struct ∈ (planStructs name chain isRoot types s).1.tail, IsNestedName struct.name
  | ⟨address, depth, accessors, hasLookup⟩, name, chain, isRoot, types, hs, hchain, htypes => by
    obtain ⟨hserves, hgrows⟩ := planMethods_spec chain accessors (methodScope isRoot hasLookup) types
    exact planNested_nested hs.accessors hchain (hgrows.separator.trans htypes) hserves
      (planMethods_nested hchain hs.accessors htypes)

theorem planNested_nested : ∀ {accessors : List Accessor} {methods : List Method} {chain : String} {types : Scope},
    (∀ accessor ∈ accessors, accessor.Each Accessor.IsWellNamed) → IsChain chain → types.separator = "" →
    List.Forall₂ Method.Serves accessors methods → (∀ type ∈ methods.filterMap Method.type?, IsNestedName type) →
    ∀ struct ∈ (planNested chain types methods accessors).1, IsNestedName struct.name
  | [], _, _, _, _, _, _, _, _ => List.forall_mem_nil _
  | ⟨identifier, key, address, access⟩ :: accessors, ⟨name, _, gives⟩ :: methods, chain, types, haccessors, hchain,
      htypes, .cons ⟨_, hserves⟩ hrest, hmethods => by
    obtain ⟨haccessor, hbehind⟩ := List.forall_mem_cons.mp haccessors
    intro struct hmem
    cases hserves with
    | scalar kind => exact planNested_nested hbehind hchain htypes hrest hmethods struct hmem
    | list => exact planNested_nested hbehind hchain htypes hrest hmethods struct hmem
    | nested child type =>
      obtain ⟨htype, hmethodsBehind⟩ := List.forall_mem_cons.mp hmethods
      have hinner := planStructs_nested type false (haccessor.nested child rfl)
        (Or.inr (hchain.append haccessor.self)) htypes
      obtain ⟨first, inner, hstructs, hname, -, _, -, hgrows⟩ :=
        planStructs_spec child type (chain ++ identifier.text) false types
      rw [planNested_cons_nested] at hmem
      rcases List.mem_append.mp hmem with hmem | hmem
      · rw [hstructs] at hmem hinner
        rcases List.mem_cons.mp hmem with rfl | hmem
        · exact hname ▸ htype
        · exact hinner struct hmem
      · exact planNested_nested hbehind hchain (hgrows.separator.trans htypes) hrest hmethodsBehind struct hmem

end

/-! ## The trait and the struct of the root -/

/-- The name of the trait in the text of a document. -/
def providerName (options : Options) : String := (claimProvider options (.empty "")).1

/-- The name of the struct of the root in the text of a document. -/
def rootName (options : Options) : String := (claimRoot options (.empty "")).1

section Names

variable {options : Options}

theorem claimProvider_eq (options : Options) (types : Scope) : claimProvider options types =
    ((reservePrelude types).freeName (typeName options.providerTrait),
      (reservePrelude types).reserve (claimProvider options types).1) := rfl

theorem claimRoot_fst (options : Options) (types : Scope) :
    (claimRoot options types).1 = (claimProvider options types).2.freeName (typeName options.rootType) := rfl

theorem providerName_eq_freeName (options : Options) :
    providerName options = (reservePrelude (.empty "")).freeName (typeName options.providerTrait) := by
  rw [providerName, claimProvider_eq]

theorem rootName_eq_freeName (options : Options) :
    rootName options = ((reservePrelude (.empty "")).reserve (providerName options)).freeName
      (typeName options.rootType) := by
  rw [rootName, claimRoot_fst, claimProvider_eq, ← providerName]

theorem isLegalName_providerName (options : Options) :
    IsLegalName (providerName options) ∧ providerName options ∉ strictKeywords := by
  rw [providerName_eq_freeName]
  exact ⟨(isLegalName_typeName options.providerTrait).freeName rfl, freeName_typeName_not_mem _ options.providerTrait⟩

theorem isLegalName_rootName (options : Options) :
    IsLegalName (rootName options) ∧ rootName options ∉ strictKeywords := by
  rw [rootName_eq_freeName]
  exact ⟨(isLegalName_typeName options.rootType).freeName rfl, freeName_typeName_not_mem _ options.rootType⟩

/-- The type names in use where nothing is declared yet. -/
theorem holds_reservePrelude {name : String} :
    (reservePrelude (.empty "")).holds name = true ↔ name ∈ preludeTypes := by
  have hused : (reservePrelude (.empty "")).used = preludeTypes.reverse := by decide
  rw [Scope.holds_iff, hused, List.mem_reverse]

theorem holds_reserve_providerName {name : String} :
    ((reservePrelude (.empty "")).reserve (providerName options)).holds name = true ↔
      name = providerName options ∨ name ∈ preludeTypes := by
  rw [Scope.holds_reserve, holds_reservePrelude]

theorem providerName_not_mem_preludeTypes (options : Options) : providerName options ∉ preludeTypes := by
  intro hmem
  have hfree := (reservePrelude (.empty "")).holds_freeName (typeName options.providerTrait)
  rw [← providerName_eq_freeName, holds_reservePrelude.mpr hmem] at hfree
  cases hfree

theorem rootName_not_mem_preludeTypes (options : Options) : rootName options ∉ preludeTypes := by
  intro hmem
  have hfree := ((reservePrelude (.empty "")).reserve (providerName options)).holds_freeName (typeName options.rootType)
  rw [← rootName_eq_freeName, holds_reserve_providerName.mpr (Or.inr hmem)] at hfree
  cases hfree

/-- The trait has the name that is wanted, unless this is that of a type in use. -/
theorem providerName_eq (h : typeName options.providerTrait ∉ preludeTypes) :
    providerName options = typeName options.providerTrait := by
  rw [providerName_eq_freeName]
  exact Scope.freeName_of_holds_eq_false (eq_false_of_ne_true fun hheld => h (holds_reservePrelude.mp hheld))

theorem rootName_eq (h : typeName options.rootType ∉ preludeTypes)
    (hprovider : typeName options.rootType ≠ providerName options) : rootName options = typeName options.rootType := by
  rw [rootName_eq_freeName]
  refine Scope.freeName_of_holds_eq_false (eq_false_of_ne_true fun hheld => ?_)
  exact (holds_reserve_providerName.mp hheld).elim hprovider h

/-- Where the trait has the name that is wanted for the root's struct, the struct gets it with the least number. -/
theorem rootName_eq_two (hprovider : typeName options.rootType = providerName options) :
    rootName options = typeName options.rootType ++ "2" := by
  have htwo : ((reservePrelude (.empty "")).reserve (providerName options)).numbered (typeName options.rootType) 2 =
      typeName options.rootType ++ "" ++ "2" := rfl
  rw [String.append_empty] at htwo
  obtain ⟨k, hk, -, hname, -, hbelow⟩ := Scope.freeName_spec (holds_reserve_providerName.mpr (Or.inl hprovider))
  rw [rootName_eq_freeName]
  rcases Nat.lt_or_eq_of_le hk with hlt | rfl
  · -- the number is not passed over: the trait has none behind the name, and no type in use has a digit
    exfalso
    rcases holds_reserve_providerName.mp (hbelow 2 (Nat.le_refl 2) hlt) with heq | hmem
    · exact Scope.numbered_ne _ _ 2 (heq.trans hprovider.symm)
    · have hdigits : ∀ name ∈ preludeTypes, Lacks Char.isDigit name := by decide
      rw [htwo] at hmem
      exact not_mem_of_not_lacks hdigits (not_lacks_append_right _ (by decide)) hmem
  · exact hname.trans htwo

end Names

/-! ### Words in lower case -/

/-- Whether a character is a capital letter or an underscore: the words of the language in lower case have none. -/
def isMarked (c : Char) : Bool := c.isUpper || c == '_'

/-- Words in lower case, apart from the words that cannot be written as raw names, even with a number behind these. -/
structure ArePlain (words : List String) : Prop where
  lacks : ∀ word ∈ words, Lacks isMarked word
  strict : ∀ word ∈ strictKeywords, word ∉ words ∧ word ++ "2" ∉ words

theorem not_lacks_of_mem_preludeTypes : ∀ name ∈ preludeTypes, ¬Lacks isMarked name := by decide

/-- A number leaves a name marked. -/
theorem not_lacks_freeName (scope : Scope) {name : String} (h : ¬Lacks isMarked name) :
    ¬Lacks isMarked (scope.freeName name) := by
  rcases scope.freeName_eq name with heq | ⟨k, heq⟩
  · rw [heq]
    exact h
  · rw [heq]
    exact not_lacks_append_left (not_lacks_append_left h _) _

/-- Where a type in use is wanted, what is given out is marked, too. -/
theorem not_lacks_providerName {options : Options} (h : typeName options.providerTrait ∈ preludeTypes) :
    ¬Lacks isMarked (providerName options) := by
  rw [providerName_eq_freeName]
  exact not_lacks_freeName _ (not_lacks_of_mem_preludeTypes _ h)

theorem not_lacks_rootName {options : Options} (h : typeName options.rootType ∈ preludeTypes) :
    ¬Lacks isMarked (rootName options) := by
  rw [rootName_eq_freeName]
  exact not_lacks_freeName _ (not_lacks_of_mem_preludeTypes _ h)

/-- A name that is not marked is not one that gets an underscore. -/
theorem typeName_eq_of_lacks {wanted : String} (h : Lacks isMarked (typeName wanted)) :
    typeName wanted = (Identifier.ofKey wanted).text := by
  rcases typeName_cases wanted with ⟨heq, -⟩ | ⟨heq, -⟩
  · exact heq
  · rw [heq] at h
    exact absurd h (not_lacks_append_right _ (by decide))

section Plain

variable {words : List String} (h : ArePlain words)

include h

theorem ArePlain.not_mem {name : String} (hname : ¬Lacks isMarked name) : name ∉ words :=
  not_mem_of_not_lacks h.lacks hname

/-- A type is called like one of the words where the options ask for it. -/
theorem ArePlain.typeName_mem_iff (wanted : String) :
    typeName wanted ∈ words ↔ (Identifier.ofKey wanted).text ∈ words := by
  rcases typeName_cases wanted with ⟨heq, -⟩ | ⟨heq, hstrict⟩
  · rw [heq]
  · rw [heq]
    exact iff_of_false (h.not_mem (not_lacks_append_right _ (by decide))) (h.strict _ hstrict).1

theorem ArePlain.typeName_eq_of_two_mem {wanted : String} (hmem : (Identifier.ofKey wanted).text ++ "2" ∈ words) :
    typeName wanted = (Identifier.ofKey wanted).text := by
  rcases typeName_cases wanted with ⟨heq, -⟩ | ⟨-, hstrict⟩
  · exact heq
  · exact absurd hmem (h.strict _ hstrict).2

theorem ArePlain.providerName_mem_iff (options : Options) :
    providerName options ∈ words ↔ (Identifier.ofKey options.providerTrait).text ∈ words := by
  rw [← h.typeName_mem_iff]
  by_cases hprelude : typeName options.providerTrait ∈ preludeTypes
  · exact iff_of_false (h.not_mem (not_lacks_providerName hprelude))
      (h.not_mem (not_lacks_of_mem_preludeTypes _ hprelude))
  · rw [providerName_eq hprelude]

/-- **The trait and the struct of the root are kept clear of words** where the options ask for none of them, and do not
ask for one name of both that is one of the words with a number. -/
theorem ArePlain.not_mem_iff (options : Options) : providerName options ∉ words ∧ rootName options ∉ words ↔
    (Identifier.ofKey options.providerTrait).text ∉ words ∧ (Identifier.ofKey options.rootType).text ∉ words ∧
      ¬((Identifier.ofKey options.providerTrait).text = (Identifier.ofKey options.rootType).text ∧
        (Identifier.ofKey options.rootType).text ++ "2" ∈ words) := by
  rw [← h.providerName_mem_iff]
  refine and_congr_right fun hfree => ?_
  rw [← h.typeName_mem_iff options.rootType]
  by_cases hprelude : typeName options.rootType ∈ preludeTypes
  · have hmarked := not_lacks_of_mem_preludeTypes _ hprelude
    refine iff_of_true (h.not_mem (not_lacks_rootName hprelude)) ⟨h.not_mem hmarked, fun ⟨_, hmem⟩ => ?_⟩
    rw [h.typeName_eq_of_two_mem hmem] at hmarked
    exact h.not_mem (not_lacks_append_left hmarked "2") hmem
  by_cases hprovider : typeName options.rootType = providerName options
  · rw [rootName_eq_two hprovider]
    constructor
    · refine fun hroot => ⟨hprovider ▸ hfree, fun ⟨_, hmem⟩ => hroot ?_⟩
      rw [h.typeName_eq_of_two_mem hmem]
      exact hmem
    · rintro ⟨-, hnot⟩ hmem
      -- neither name is marked, so that both are the identifiers that the options ask for
      have hlacks := (lacks_of_append (h.lacks _ hmem)).1
      have hroot := typeName_eq_of_lacks hlacks
      have hnamed : typeName options.providerTrait ∉ preludeTypes := fun hmem' =>
        not_lacks_providerName hmem' (hprovider ▸ hlacks)
      have hsame : typeName options.rootType = typeName options.providerTrait :=
        hprovider.trans (providerName_eq hnamed)
      have hwanted : typeName options.providerTrait = (Identifier.ofKey options.providerTrait).text := by
        rw [hsame] at hlacks
        exact typeName_eq_of_lacks hlacks
      rw [hroot] at hmem
      exact hnot ⟨hwanted.symm.trans (hsame.symm.trans hroot), hmem⟩
  · rw [rootName_eq hprelude hprovider]
    refine (and_iff_left_of_imp fun _ => ?_).symm
    rintro ⟨hsame, -⟩
    have hname : typeName options.providerTrait = typeName options.rootType := by
      rw [typeName, hsame, typeName]
    rw [← hname] at hprelude hprovider
    exact hprovider (providerName_eq hprelude).symm

end Plain

/-! ## The declared types -/

/-- **The types that a text declares**: the trait, the struct of the root, and structs of nested sections. -/
theorem exists_declaredTypes (options : Options) {root : Section} (hroot : root.HasWellFormedNames) :
    ∃ nested, declaredTypes (source options root) = providerName options :: rootName options :: nested ∧
      nested.length + 1 = root.walk.length ∧ ∀ name ∈ nested, IsNestedName name := by
  have hnested := @planStructs_nested root (rootName options) "" true (claimRoot options (.empty "")).2 hroot
    (Or.inl rfl) rfl
  obtain ⟨struct, inner, hstructs, hname, hplanned, -⟩ :=
    planStructs_spec root (rootName options) "" true (claimRoot options (.empty "")).2
  rw [hstructs] at hnested
  have hdeclared := declaredTypes_source options hroot
  rw [← providerName, ← rootName, hstructs, List.map_cons, hname] at hdeclared
  refine ⟨inner.map Struct.name, hdeclared, ?_, List.forall_mem_map.mpr hnested⟩
  rw [List.length_map, walk_eq, List.length_cons, hplanned.forall₂_walk.2.length_eq]

/-- The declared types are kept clear of words in lower case where the options are. -/
theorem ArePlain.forall_declaredTypes_iff {words : List String} (h : ArePlain words)
    (hlength : ∀ word ∈ words, word.toList.length ≤ 8) (options : Options) {root : Section}
    (hroot : root.HasWellFormedNames) : (∀ name ∈ declaredTypes (source options root), name ∉ words) ↔
      (Identifier.ofKey options.providerTrait).text ∉ words ∧ (Identifier.ofKey options.rootType).text ∉ words ∧
        ¬((Identifier.ofKey options.providerTrait).text = (Identifier.ofKey options.rootType).text ∧
          (Identifier.ofKey options.rootType).text ++ "2" ∈ words) := by
  obtain ⟨nested, hdeclared, -, hnested⟩ := exists_declaredTypes options hroot
  have hfree : ∀ name ∈ nested, name ∉ words := fun name hname => (hnested name hname).not_mem hlength
  rw [← h.not_mem_iff, hdeclared, List.forall_mem_cons, List.forall_mem_cons, and_iff_left hfree]

theorem arePlain_keywords : ArePlain keywords where
  lacks := by decide
  strict := by decide

theorem length_le_of_mem_keywords : ∀ word ∈ keywords, word.toList.length ≤ 8 := by decide

/-- **The declared types have legal names**, and a word of the language is the name of none, unless the options ask for
one that can be written raw. -/
theorem declaredTypes_areLegal (options : Options) {root : Section} (hroot : root.HasWellFormedNames) :
    (declaredTypes (source options root)).length = root.walk.length + 1 ∧
      (∀ name ∈ declaredTypes (source options root), IsLegalName name ∧ name ∉ strictKeywords) ∧
      (∀ name ∈ (declaredTypes (source options root)).drop 2, name ∉ keywords) ∧
      ((∀ name ∈ declaredTypes (source options root), name ∉ keywords) ↔
        (Identifier.ofKey options.providerTrait).text ∉ keywords ∧
          (Identifier.ofKey options.rootType).text ∉ keywords) := by
  have hiff := arePlain_keywords.forall_declaredTypes_iff length_le_of_mem_keywords options hroot
  have hnumbered : (Identifier.ofKey options.rootType).text ++ "2" ∉ keywords := by
    have hdigits : ∀ word ∈ keywords, Lacks Char.isDigit word := by decide
    exact not_mem_of_not_lacks hdigits (not_lacks_append_right _ (by decide))
  rw [and_iff_left fun hboth => hnumbered hboth.2] at hiff
  obtain ⟨nested, hdeclared, hlength, hnested⟩ := exists_declaredTypes options hroot
  refine ⟨?_, ?_, ?_, hiff⟩
  · rw [hdeclared, ← hlength]
    rfl
  · rw [hdeclared]
    refine List.forall_mem_cons.mpr ⟨isLegalName_providerName options, ?_⟩
    refine List.forall_mem_cons.mpr ⟨isLegalName_rootName options, ?_⟩
    exact fun name hname => ⟨(hnested name hname).legal, (hnested name hname).not_mem (by decide)⟩
  · rw [hdeclared]
    exact fun name hname => (hnested name hname).not_mem length_le_of_mem_keywords

/-- The hypothesis is met by a section with another one inside, where the options ask for words that cannot be written
raw. -/
theorem declaredTypes_areLegal_strict :
    Section.hostile.HasWellFormedNames ∧
      declaredTypes (source { rootType := "self", providerTrait := "$crate" } Section.hostile) =
        ["crate_", "Self_", "_1Settings"] ∧
      ∀ name ∈ declaredTypes (source { rootType := "self", providerTrait := "$crate" } Section.hostile),
        IsLegalName name ∧ name ∉ strictKeywords := by
  refine ⟨Section.hasWellFormedNames_hostile, ?_, ?_⟩
  · rw [declaredTypes_source _ Section.hasWellFormedNames_hostile]
    decide
  · exact (declaredTypes_areLegal { rootType := "self", providerTrait := "$crate" }
      Section.hasWellFormedNames_hostile).2.1

/-- **A type gets the name of a word that can be written raw**, as it stands. -/
theorem exists_declaredType_keyword : ∃ root : Section, root.HasWellFormedNames ∧
    declaredTypes (source { rootType := "$struct" } root) = ["ConfigProvider", "struct"] ∧ "struct" ∈ keywords := by
  have hroot : Section.HasWellFormedNames ⟨.root, 0, [], false⟩ := by
    unfold Section.HasWellFormedNames Section.Each Accessor.IsWellNamed
    decide
  refine ⟨_, hroot, ?_, by decide⟩
  rw [declaredTypes_source _ hroot]
  decide

/-! ## Types in use -/

/-- The types that need no declaration and have names in lower case. -/
def primitiveTypes : List String := ["i32", "f64", "bool", "str"]

/-- The types that the methods of the structs and of the trait name. -/
def signatureTypes : List String := ["String", "Vec", "Option", "i32", "f64", "bool", "str"]

theorem arePlain_primitiveTypes : ArePlain primitiveTypes where
  lacks := by decide
  strict := by decide

theorem mem_signatureTypes_iff {name : String} :
    name ∈ signatureTypes ↔ name ∈ preludeTypes ∨ name ∈ primitiveTypes := by
  rw [show signatureTypes = preludeTypes ++ primitiveTypes from rfl, List.mem_append]

/-- Of the types in lower case one ends in the first number that is given out. -/
theorem append_two_mem_primitiveTypes_iff {name : String} : name ++ "2" ∈ primitiveTypes ↔ name = "i3" := by
  constructor
  · intro hmem
    have hend : (name ++ "2").toList = name.toList ++ ['2'] := String.toList_append
    have hlast : ∀ type ∈ primitiveTypes, type.toList.getLast? = some '2' → type.toList = "i3".toList ++ ['2'] := by
      decide
    have heq := hlast _ hmem (by rw [hend, List.getLast?_concat])
    rw [hend] at heq
    exact String.toList_inj.mp (List.append_cancel_right heq)
  · rintro rfl
    decide

/-- **No declared type has the name of a type in use**, unless the options ask for one in lower case. The types with
capital letters are kept off, and so are all from the names of nested sections. -/
theorem declaredTypes_shadow_iff (options : Options) {root : Section} (hroot : root.HasWellFormedNames) :
    (∀ name ∈ declaredTypes (source options root), name ∉ preludeTypes) ∧
      (∀ name ∈ (declaredTypes (source options root)).drop 2, name ∉ signatureTypes) ∧
      ((∀ name ∈ declaredTypes (source options root), name ∉ signatureTypes) ↔
        (Identifier.ofKey options.providerTrait).text ∉ primitiveTypes ∧
          (Identifier.ofKey options.rootType).text ∉ primitiveTypes ∧
          ¬((Identifier.ofKey options.providerTrait).text = "i3" ∧
            (Identifier.ofKey options.rootType).text = "i3")) := by
  have hiff := arePlain_primitiveTypes.forall_declaredTypes_iff (by decide) options hroot
  obtain ⟨nested, hdeclared, -, hnested⟩ := exists_declaredTypes options hroot
  have hprelude : ∀ name ∈ declaredTypes (source options root), name ∉ preludeTypes := by
    rw [hdeclared]
    refine List.forall_mem_cons.mpr ⟨providerName_not_mem_preludeTypes options, ?_⟩
    refine List.forall_mem_cons.mpr ⟨rootName_not_mem_preludeTypes options, ?_⟩
    exact fun name hname => (hnested name hname).not_mem (by decide)
  refine ⟨hprelude, ?_, ?_⟩
  · rw [hdeclared]
    exact fun name hname => (hnested name hname).not_mem (by decide)
  · have hsignature : (∀ name ∈ declaredTypes (source options root), name ∉ signatureTypes) ↔
        ∀ name ∈ declaredTypes (source options root), name ∉ primitiveTypes :=
      forall₂_congr fun name hname => by rw [mem_signatureTypes_iff, or_iff_right (hprelude name hname)]
    have hboth : (Identifier.ofKey options.providerTrait).text = (Identifier.ofKey options.rootType).text ∧
          (Identifier.ofKey options.rootType).text ++ "2" ∈ primitiveTypes ↔
        (Identifier.ofKey options.providerTrait).text = "i3" ∧ (Identifier.ofKey options.rootType).text = "i3" := by
      rw [append_two_mem_primitiveTypes_iff]
      exact and_congr_left fun hname => by rw [hname]
    rw [hsignature, hiff, hboth]

/-- The hypothesis is met by a section whose type is wanted under the name of a type in use, and gets a number. -/
theorem declaredTypes_shadow_iff_numbered :
    Section.hostile.HasWellFormedNames ∧
      declaredTypes (source { rootType := "String" } Section.hostile) = ["ConfigProvider", "String2", "_1Settings"] ∧
      ∀ name ∈ declaredTypes (source { rootType := "String" } Section.hostile), name ∉ signatureTypes := by
  refine ⟨Section.hasWellFormedNames_hostile, ?_, ?_⟩
  · rw [declaredTypes_source _ Section.hasWellFormedNames_hostile]
    decide
  · exact (declaredTypes_shadow_iff { rootType := "String" } Section.hasWellFormedNames_hostile).2.2.mpr (by decide)

/-- **A type in lower case is declared anew where the options ask for its name**, and a method returns it all the
same. -/
theorem exists_declaredType_primitive : ∃ root : Section, root.HasWellFormedNames ∧
    declaredTypes (source { rootType := "$i32" } root) = ["ConfigProvider", "i32"] ∧ "i32" ∈ signatureTypes ∧
      ∃ accessor ∈ root.accessors, accessor.access = .scalar .integer := by
  have hroot : Section.HasWellFormedNames ⟨.root, 0, [⟨⟨"N"⟩, "n", ⟨["n"]⟩, .scalar .integer⟩], false⟩ := by
    unfold Section.HasWellFormedNames Section.Each Accessor.IsWellNamed
    decide
  refine ⟨_, hroot, ?_, by decide, _, List.mem_cons_self, rfl⟩
  rw [declaredTypes_source _ hroot]
  decide

end TypedSettings.Structs
