import TypedSettings.Classes.Source
import TypedSettings.Proofs.Classes.Literal
import TypedSettings.Proofs.Identifier.NameText

/-!
# The lines of the nested classes

`ShowsClass depth name s lines` describes the lines of a class for a section apart from the functions that write them:
its members come in the order of the accessors, a leaf reads at any literal of its address (`Reads` has the types and
the reading expressions), and the property of a nested section is typed by the class that stands right behind it, for
that section. The names of the members and of the classes among them are well-formed, and no two of them are equal.

The main result is `showsClass`: the lines that are written for a section show it.
-/

namespace TypedSettings.Classes

open Text

/-! ## What lines show -/

/-- How a leaf is read: the declaration with its type up to the name, what stands behind the name up to the literal, and
what stands behind the literal. -/
inductive Reads : Access → String → String → String → Prop
  | string : Reads (.scalar .string) "public string " " => _configuration[" "] ?? string.Empty;"
  | integer : Reads (.scalar .integer) "public int " " => int.TryParse(_configuration["
      "], NumberStyles.Integer, CultureInfo.InvariantCulture, out var value) ? value : 0;"
  | float : Reads (.scalar .float) "public double " " => double.TryParse(_configuration["
      "], NumberStyles.Float, CultureInfo.InvariantCulture, out var value) ? value : 0.0;"
  | boolean : Reads (.scalar .boolean) "public bool " " => bool.TryParse(_configuration["
      "], out var value) && value;"
  | list : Reads .list "public string[] " " => _configuration.GetSection("
      ").GetChildren().Select(c => c.Value ?? string.Empty).ToArray();"

/-- The comment of an accessor's property, if it has one. -/
def commentLines (depth : Nat) (accessor : Accessor) : List Line :=
  if !Key.isPlain accessor.key then [commentLine depth accessor.address] else []

/-- The lines of the members of a class, with those of the class around them. -/
def framed (depth : Nat) (name : String) (s : Section) (members : List Line) : List Line :=
  [⟨depth, "public class " ++ verbatim name⟩, ⟨depth, "\x7b"⟩] ++
  constructorLines (depth + 1) (verbatim name) ++
  members ++
  (if s.hasLookup then indexerLines (depth + 1) s.address else []) ++
  [⟨depth, "\x7d"⟩] ++
  (if depth = 0 then [] else [blank])

mutual

/-- The lines of a class of a name for a section. -/
inductive ShowsClass : Nat → String → Section → List Line → Prop
  | intro {depth : Nat} {name : String} {s : Section} {names : List String} {members : List Line} :
      ShowsMembers (depth + 1) s.accessors names members → (name :: names).Nodup →
      (∀ other ∈ names, Identifier.isWellFormed other = true) → ShowsClass depth name s (framed depth name s members)

/-- The lines of the members for a list of accessors, and the names that these declare: that of each property, and that
of the class behind it if there is one. -/
inductive ShowsMembers : Nat → List Accessor → List String → List Line → Prop
  | done {depth : Nat} : ShowsMembers depth [] [] []
  | reads {depth : Nat} {accessor : Accessor} {accessors : List Accessor} {name : String} {names : List String}
      {declaration before behind key : String} {lines : List Line} :
      Reads accessor.access declaration before behind → IsLiteralOf accessor.address.text key → Lacks endsLine key →
      ShowsMembers depth accessors names lines → ShowsMembers depth (accessor :: accessors) (name :: names)
        (commentLines depth accessor ++
          [⟨depth, declaration ++ verbatim name ++ before ++ key ++ behind⟩] ++
          lines)
  | makes {depth : Nat} {accessor : Accessor} {child : Section} {accessors : List Accessor} {name type : String}
      {names : List String} {inner lines : List Line} : accessor.access.nested? = some child → verbatim type = type →
      ShowsClass depth type child inner → ShowsMembers depth accessors names lines →
      ShowsMembers depth (accessor :: accessors) (name :: type :: names)
        (commentLines depth accessor ++
          ([⟨depth, "public " ++ type ++ " " ++ verbatim name ++ " => new " ++ type ++ "(_configuration);"⟩, blank] ++
            inner) ++
          lines)

end

/-! ## The names of a class -/

theorem lacks_isUpper_of_mem_reservedWords : ∀ word ∈ reservedWords, Lacks Char.isUpper word := by
  unfold reservedWords
  repeat' refine List.forall_mem_cons.mpr ⟨lacks_ofList (by decide), ?_⟩
  exact List.forall_mem_nil _

/-- A name with an upper-case letter is no reserved word. -/
theorem verbatim_eq {name : String} {c : Char} (hc : c ∈ name.toList) (hupper : c.isUpper = true) :
    verbatim name = name := by
  have hfree : ¬reservedWords.contains name = true := by
    intro hmem
    have hlower := lacks_isUpper_of_mem_reservedWords name (List.contains_iff_mem.mp hmem) c hc
    rw [hupper] at hlower
    cases hlower
  rw [verbatim, if_neg hfree]

/-- The class of a nested section has the name of the property with a fixed end, so that it is no reserved word. -/
theorem verbatim_claim (scope : Scope) (property : String) :
    verbatim (scope.claim (property ++ "Settings")).1 = (scope.claim (property ++ "Settings")).1 := by
  have hmem : 'S' ∈ (property ++ "Settings").toList := by
    rw [String.toList_append]
    exact List.mem_append_right _ (by decide)
  have hgiven : 'S' ∈ (scope.claim (property ++ "Settings")).1.toList := by
    rcases scope.freeName_eq (property ++ "Settings") with heq | ⟨k, heq⟩
    · rw [Scope.claim, heq]
      exact hmem
    · rw [Scope.claim, heq, Scope.toList_numbered, List.append_assoc]
      exact List.mem_append_left _ hmem
  exact verbatim_eq hgiven (by decide)

theorem separator_memberScope (name : String) (hasIndexer : Bool) : (memberScope name hasIndexer).separator = "" := by
  cases hasIndexer <;> rfl

theorem holds_memberScope (name : String) (hasIndexer : Bool) : (memberScope name hasIndexer).holds name = true := by
  have hname : ((Scope.empty "").reserve name).holds name = true := Scope.holds_reserve.mpr (Or.inl rfl)
  cases hasIndexer with
  | false => exact hname
  | true => exact Scope.holds_reserve.mpr (Or.inr hname)

/-! ## The lines of a class show its section -/

/-- What a scope gives out for an identifier. -/
theorem exists_claim {scope : Scope} {wanted : String} (hscope : scope.separator = "")
    (hwanted : Identifier.isWellFormed wanted = true) : ∃ name behind, scope.claim wanted = (name, behind) ∧
      Identifier.isWellFormed name = true ∧ scope.Grows [name] behind ∧ behind.separator = "" :=
  ⟨_, _, rfl, Scope.isWellFormed_claim hscope hwanted, scope.grows_claim wanted, hscope⟩

/-- The lines of a property come before those of the properties behind it. -/
theorem memberLines_cons {scope named : Scope} {name : String} (depth : Nat) (accessor : Accessor)
    (accessors : List Accessor) (hname : scope.claim accessor.identifier.text = (name, named)) :
    memberLines depth (planMembers scope (accessor :: accessors)) =
      commentLines depth accessor ++
        propertyLines depth (verbatim name) (literal accessor.address.text) (planGives name named accessor.access).1 ++
        memberLines depth (planMembers (planGives name named accessor.access).2 accessors) := by
  obtain ⟨identifier, key, address, access⟩ := accessor
  rw [planMembers, hname]
  rfl

/-- The lines of the property of a nested section, and those of the section's class. -/
theorem propertyLines_nested {named typed : Scope} {name type : String} (depth : Nat) (key : String) (child : Section)
    (htype : named.claim (name ++ "Settings") = (type, typed)) :
    propertyLines depth (verbatim name) key (planGives name named (.nested child)).1 =
      [⟨depth, objectProperty (verbatim name) type⟩, blank] ++ classLines depth (planClass type child) := by
  rw [planGives, htype, propertyLines]
  cases child
  rfl

mutual

/-- **The lines that are written for a section show it.** -/
theorem showsClass : ∀ (s : Section) (name : String) (depth : Nat), s.HasWellFormedNames →
    ShowsClass depth name s (classLines depth (planClass name s))
  | ⟨address, level, accessors, hasLookup⟩, name, depth, hs => by
    obtain ⟨names, scope, hmembers, hgrows, hwell⟩ := showsMembers accessors (memberScope name hasLookup) (depth + 1)
      (separator_memberScope name hasLookup) hs.accessors
    have hname : name ∉ names := by
      intro hmem
      have hfree := hgrows.fresh name hmem
      rw [holds_memberScope] at hfree
      cases hfree
    exact .intro hmembers (List.nodup_cons.mpr ⟨hname, hgrows.nodup⟩) hwell

theorem showsMembers : ∀ (accessors : List Accessor) (scope : Scope) (depth : Nat), scope.separator = "" →
    (∀ accessor ∈ accessors, accessor.Each Accessor.IsWellNamed) →
    ∃ names scope', ShowsMembers depth accessors names (memberLines depth (planMembers scope accessors)) ∧
      scope.Grows names scope' ∧ ∀ name ∈ names, Identifier.isWellFormed name = true
  | [], scope, depth, _, _ => ⟨[], scope, .done, .refl scope, List.forall_mem_nil _⟩
  | ⟨identifier, key, address, access⟩ :: accessors, scope, depth, hscope, haccessors => by
    obtain ⟨haccessor, hbehind⟩ := List.forall_mem_cons.mp haccessors
    obtain ⟨name, named, hname, hwell, hgrows, hnamed⟩ := exists_claim hscope haccessor.self
    have hliteral := isLiteralOf_literal address.text
    have hlacks := lacks_literal address.text
    rw [memberLines_cons depth _ accessors hname]
    cases access with
    | scalar kind =>
      obtain ⟨names, scope', hlines, hgrows', hwell'⟩ := showsMembers accessors named depth hnamed hbehind
      refine ⟨name :: names, scope', ?_, hgrows.trans hgrows', List.forall_mem_cons.mpr ⟨hwell, hwell'⟩⟩
      cases kind with
      | string => exact .reads .string hliteral hlacks hlines
      | integer => exact .reads .integer hliteral hlacks hlines
      | float => exact .reads .float hliteral hlacks hlines
      | boolean => exact .reads .boolean hliteral hlacks hlines
    | list =>
      obtain ⟨names, scope', hlines, hgrows', hwell'⟩ := showsMembers accessors named depth hnamed hbehind
      exact ⟨name :: names, scope', .reads .list hliteral hlacks hlines, hgrows.trans hgrows',
        List.forall_mem_cons.mpr ⟨hwell, hwell'⟩⟩
    | nested child =>
      -- the class gets its name behind that of its property, in the same scope
      have hwanted : Identifier.isWellFormed (name ++ "Settings") = true :=
        Identifier.isWellFormed_of_toList_append hwell String.toList_append (List.all_eq_true.mp (by decide))
      obtain ⟨type, typed, htype, hwellType, hgrowsType, htyped⟩ := exists_claim hnamed hwanted
      have hverbatim : verbatim type = type := by
        have hclaim := verbatim_claim named name
        rwa [htype] at hclaim
      have hinner := showsClass child type depth (haccessor.nested child rfl)
      obtain ⟨names, scope', hlines, hgrows', hwell'⟩ := showsMembers accessors typed depth htyped hbehind
      rw [propertyLines_nested depth _ child htype]
      refine ⟨name :: type :: names, scope', ?_, hgrows.trans (hgrowsType.trans hgrows'),
        List.forall_mem_cons.mpr ⟨hwell, List.forall_mem_cons.mpr ⟨hwellType, hwell'⟩⟩⟩
      rw [planGives, htype]
      exact .makes rfl hverbatim hinner hlines

end

end TypedSettings.Classes
