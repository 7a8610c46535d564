import TypedSettings.Proofs.Classes.Code
import TypedSettings.Proofs.Classes.Declarations
import TypedSettings.Proofs.Schema.Account
import TypedSettings.Source

/-!
# Keys are no code

`Section.keyless` is a section with the texts of its keys taken out: of a key remains whether it is plain, which decides
on its comment, and of an address whether it is the root's. The code of a document is compared with that of the document
without its keys.

* `keepsLines_source_iff`, `each_hasOneLineComment_iff`: the text ends its lines where they were written to end, unless
  an exposed key has a separator;
* `codeOf_source_keyless`: where the text keeps its lines, its code says nothing of the keys;
* `source_keepsLines_iff`: both, for a document.
-/

namespace TypedSettings

/-! ## Sections without keys -/

/-- Two keys, of which one is plain: they stand for all keys. -/
def Key.keyless (key : String) : String := if Key.isPlain key then "Key" else ""

/-- An address without its keys, of which only remains whether there are any. -/
def Address.keyless (address : Address) : Address := if address.isRoot then .root else ⟨[""]⟩

namespace Section

mutual

/-- A section with the texts of the keys taken out, in it and in those inside it. -/
def keyless : Section → Section
  | ⟨address, depth, accessors, hasLookup⟩ => ⟨address.keyless, depth, keylessAccessors accessors, hasLookup⟩

/-- Accessors with the texts of the keys taken out. -/
def keylessAccessors : List Accessor → List Accessor
  | [] => []
  | ⟨identifier, key, address, access⟩ :: accessors =>
    ⟨identifier, Key.keyless key, address.keyless, keylessAccess access⟩ :: keylessAccessors accessors

/-- An access with the texts of the keys taken out. -/
def keylessAccess : Access → Access
  | .nested child => .nested (keyless child)
  | .scalar kind => .scalar kind
  | .list => .list

end

end Section

/-- An accessor with the texts of the keys taken out. -/
def Accessor.keyless (accessor : Accessor) : Accessor :=
  ⟨accessor.identifier, Key.keyless accessor.key, accessor.address.keyless, Section.keylessAccess accessor.access⟩

theorem Key.isPlain_keyless (key : String) : Key.isPlain (Key.keyless key) = Key.isPlain key := by
  unfold Key.keyless
  split
  · rename_i h
    rw [h]
    decide
  · rename_i h
    rw [eq_false_of_ne_true h]
    decide

theorem Address.isRoot_keyless (address : Address) : address.keyless.isRoot = address.isRoot := by
  unfold Address.keyless
  split
  · rename_i h
    rw [h]
    rfl
  · rename_i h
    rw [eq_false_of_ne_true h]
    rfl

theorem Address.text_keyless (address : Address) : address.keyless.text = "" := by
  unfold Address.keyless
  split
  · rfl
  · exact String.intercalate_singleton

section Each

variable {P Q : Accessor → Prop}

mutual

/-- What holds of the accessors of a section, in another form it holds of those of the section without keys. -/
theorem each_keyless (hPQ : ∀ accessor, P accessor → Q accessor.keyless) : ∀ {s : Section}, s.Each P → s.keyless.Each Q
  | ⟨_, _, accessors, _⟩, h =>
    Section.each_iff.mpr (@each_keylessAccessors hPQ accessors h.accessors)

theorem each_keylessAccessors (hPQ : ∀ accessor, P accessor → Q accessor.keyless) : ∀ {accessors : List Accessor},
    (∀ accessor ∈ accessors, accessor.Each P) → ∀ accessor ∈ Section.keylessAccessors accessors, accessor.Each Q
  | [], _ => fun _ hmem => by cases hmem
  | ⟨identifier, key, address, access⟩ :: accessors, h => by
    obtain ⟨hself, hrest⟩ := List.forall_mem_cons.mp h
    refine List.forall_mem_cons.mpr ⟨⟨hPQ _ hself.self, ?_⟩, each_keylessAccessors hPQ hrest⟩
    cases access with
    | nested child =>
      intro other hother
      cases hother
      exact each_keyless hPQ (hself.nested child rfl)
    | scalar kind => exact fun _ hother => by cases hother
    | list => exact fun _ hother => by cases hother

end

end Each

/-! ## Accessors of a schema -/

theorem Section.each_iff_exposures {P : Accessor → Prop} {s : Section} :
    s.Each P ↔ ∀ exposure ∈ s.exposures, P exposure.accessor := by
  constructor
  · intro h exposure hmem
    obtain ⟨howner, after, haccessors⟩ := Section.mem_exposures.mp hmem
    refine h exposure.owner howner exposure.accessor ?_
    rw [haccessors]
    exact List.mem_append_right _ List.mem_cons_self
  · intro h t ht accessor hmem
    obtain ⟨before, after, haccessors⟩ := List.append_of_mem hmem
    exact h ⟨t, before, accessor⟩ (Section.mem_exposures.mpr ⟨ht, after, haccessors⟩)

end TypedSettings

namespace TypedSettings.Classes

open Text

/-! ## Keys are no code -/

theorem lacks_isMark_verbatim {name : String} (h : IsNameText name) : Lacks isMark (verbatim name) := by
  refine lacks_verbatim_of_mark (by decide) (h.lacks fun c hc => ?_)
  simp only [isMark, Bool.or_eq_true, beq_iff_eq] at hc
  rcases hc with rfl | rfl
  · decide
  · decide

/-- The comment of an accessor is there with its key and without. -/
theorem codeLines_commentLines_keyless (depth : Nat) {accessor : Accessor} (h : HasOneLineComment accessor) :
    codeLines (commentLines depth accessor.keyless) = codeLines (commentLines depth accessor) := by
  have hplain : Key.isPlain accessor.keyless.key = Key.isPlain accessor.key := Key.isPlain_keyless accessor.key
  unfold commentLines
  rw [hplain]
  split
  · rename_i hcommented
    have hkeyless : Lacks endsLine (summaryText accessor.keyless.address.text) := by
      rw [show accessor.keyless.address = accessor.address.keyless from rfl, Address.text_keyless]
      exact fun _ hc => by cases hc
    have hlacks := lacks_summaryText_iff.mpr (h (by simpa using hcommented))
    rw [codeLines, List.map_singleton, codeLines, List.map_singleton, codeFrom_commentLine depth hkeyless,
      codeFrom_commentLine depth hlacks]
  · rfl

theorem codeLines_indexerLines_keyless (depth : Nat) (address : Address) :
    codeLines (indexerLines depth address.keyless) = codeLines (indexerLines depth address) := by
  have hbody : codeFrom .code (Line.indented ⟨depth, "public string this[string key] => " ++
        indexerBody address.keyless ++ " ?? string.Empty;"⟩) =
      codeFrom .code (Line.indented ⟨depth, "public string this[string key] => " ++
        indexerBody address ++ " ?? string.Empty;"⟩) := by
    have hbefore : Lacks isMark ("public string this[string key] => " ++ "_configuration[") :=
      (lacks_ofList (by decide)).append (lacks_ofList (by decide))
    unfold indexerBody
    rw [Address.isRoot_keyless]
    split
    · rfl
    · have hline : ∀ s, "public string this[string key] => " ++ ("_configuration[" ++ literal s ++ " + key]") ++
          " ?? string.Empty;" = "public string this[string key] => " ++ "_configuration[" ++ literal s ++
            (" + key]" ++ " ?? string.Empty;") := fun s => by simp only [String.append_assoc]
      rw [hline, hline, codeFrom_literalLine hbefore, codeFrom_literalLine hbefore]
  exact congrArg (fun code => [codeFrom .code blank.indented, _, code]) hbody

/-- The property of a leaf is one line, on which the key stands behind the name. -/
theorem exists_reads {access : Access} (h : access.nested? = none) : ∃ declaration before behind,
    Reads access declaration before behind ∧ ∀ depth name key property scope,
      propertyLines depth name key (planGives property scope access).1 =
        [⟨depth, declaration ++ name ++ before ++ key ++ behind⟩] := by
  cases access with
  | scalar kind =>
    cases kind with
    | string => exact ⟨_, _, _, .string, fun _ _ _ _ _ => rfl⟩
    | integer => exact ⟨_, _, _, .integer, fun _ _ _ _ _ => rfl⟩
    | float => exact ⟨_, _, _, .float, fun _ _ _ _ _ => rfl⟩
    | boolean => exact ⟨_, _, _, .boolean, fun _ _ _ _ _ => rfl⟩
  | list => exact ⟨_, _, _, .list, fun _ _ _ _ _ => rfl⟩
  | nested child => cases h

theorem Reads.lacks_isMark {access : Access} {declaration before behind : String}
    (h : Reads access declaration before behind) : Lacks isMark declaration ∧ Lacks isMark before := by
  cases h <;> exact ⟨lacks_ofList (by decide), lacks_ofList (by decide)⟩

/-- The key at which a leaf reads is no code. -/
theorem codeLines_leaf (depth : Nat) {property : String} (hproperty : IsNameText property) {access : Access}
    (hleaf : access.nested? = none) (scope : Scope) (s t : String) :
    codeLines (propertyLines depth (verbatim property) (literal s) (planGives property scope access).1) =
      codeLines (propertyLines depth (verbatim property) (literal t) (planGives property scope access).1) := by
  obtain ⟨declaration, before, behind, hreads, hline⟩ := exists_reads hleaf
  have hfixed := hreads.lacks_isMark
  have hbefore : Lacks isMark (declaration ++ verbatim property ++ before) :=
    (hfixed.1.append (lacks_isMark_verbatim hproperty)).append hfixed.2
  rw [hline, hline, codeLines, List.map_singleton, codeLines, List.map_singleton, codeFrom_literalLine hbefore,
    codeFrom_literalLine hbefore]

/-- Around the members of a class, the code is that of the class without keys. -/
theorem codeLines_framed_keyless (depth : Nat) (name : String) (s : Section) {members members' : List Line}
    (h : codeLines members' = codeLines members) :
    codeLines (framed depth name s.keyless members') = codeLines (framed depth name s members) := by
  have hindexer : codeLines (if s.keyless.hasLookup then indexerLines (depth + 1) s.keyless.address else []) =
      codeLines (if s.hasLookup then indexerLines (depth + 1) s.address else []) := by
    cases s with
    | mk address level accessors hasLookup =>
      cases hasLookup with
      | false => rfl
      | true => exact codeLines_indexerLines_keyless (depth + 1) address
  unfold framed
  simp only [codeLines_append, h, hindexer]

mutual

/-- **The code of a class is that of the class without keys.** -/
theorem codeLines_classLines_keyless : ∀ (s : Section) (name : String) (depth : Nat), s.HasWellFormedNames →
    s.Each HasOneLineComment →
    codeLines (classLines depth (planClass name s.keyless)) = codeLines (classLines depth (planClass name s))
  | ⟨address, level, accessors, hasLookup⟩, name, depth, hnames, hcomments =>
    codeLines_framed_keyless depth name ⟨address, level, accessors, hasLookup⟩
      (codeLines_memberLines_keyless accessors (memberScope name hasLookup) (depth + 1)
        (separator_memberScope name hasLookup) hnames.accessors hcomments.accessors)

theorem codeLines_memberLines_keyless : ∀ (accessors : List Accessor) (scope : Scope) (depth : Nat),
    scope.separator = "" → (∀ accessor ∈ accessors, accessor.Each Accessor.IsWellNamed) →
    (∀ accessor ∈ accessors, accessor.Each HasOneLineComment) →
    codeLines (memberLines depth (planMembers scope (Section.keylessAccessors accessors))) =
      codeLines (memberLines depth (planMembers scope accessors))
  | [], _, _, _, _, _ => rfl
  | ⟨identifier, key, address, access⟩ :: accessors, scope, depth, hscope, hnames, hcomments => by
    obtain ⟨hname, hnames'⟩ := List.forall_mem_cons.mp hnames
    obtain ⟨hcomment, hcomments'⟩ := List.forall_mem_cons.mp hcomments
    obtain ⟨property, named, hproperty, hwell, -, hnamed⟩ := exists_claim hscope hname.self
    have hlines := memberLines_cons depth ⟨identifier, key, address, access⟩ accessors hproperty
    have hkeyless : memberLines depth
          (planMembers scope (Section.keylessAccessors (⟨identifier, key, address, access⟩ :: accessors))) =
        commentLines depth (Accessor.keyless ⟨identifier, key, address, access⟩) ++
          propertyLines depth (verbatim property) (literal address.keyless.text)
            (planGives property named (Section.keylessAccess access)).1 ++
          memberLines depth (planMembers (planGives property named (Section.keylessAccess access)).2
            (Section.keylessAccessors accessors)) :=
      memberLines_cons depth (Accessor.keyless ⟨identifier, key, address, access⟩) _ hproperty
    have hshown := codeLines_commentLines_keyless depth hcomment.self
    have htext : IsNameText property := isNameText_of_isWellFormed hwell
    rw [hlines, hkeyless, codeLines_append, codeLines_append, codeLines_append, codeLines_append, hshown]
    cases access with
    | scalar kind =>
      have hscalar : (Access.scalar kind).nested? = none := rfl
      have hleaf := codeLines_leaf depth htext hscalar named address.keyless.text address.text
      have hbehind := codeLines_memberLines_keyless accessors named depth hnamed hnames' hcomments'
      exact congrArg₂ _ (congrArg _ hleaf) hbehind
    | list =>
      have hlist : Access.list.nested? = none := rfl
      have hleaf := codeLines_leaf depth htext hlist named address.keyless.text address.text
      have hbehind := codeLines_memberLines_keyless accessors named depth hnamed hnames' hcomments'
      exact congrArg₂ _ (congrArg _ hleaf) hbehind
    | nested child =>
      have hinner := codeLines_classLines_keyless child (named.freeName (property ++ "Settings")) depth
        (hname.nested child rfl) (hcomment.nested child rfl)
      have hbehind := codeLines_memberLines_keyless accessors (named.claim (property ++ "Settings")).2 depth hnamed
        hnames' hcomments'
      have hproperties : codeLines (propertyLines depth (verbatim property) (literal address.keyless.text)
            (planGives property named (.nested child.keyless)).1) =
          codeLines (propertyLines depth (verbatim property) (literal address.text)
            (planGives property named (.nested child)).1) := by
        rw [propertyLines_nested depth _ _ rfl, propertyLines_nested depth _ _ rfl, codeLines_append, codeLines_append,
          hinner]
      exact congrArg₂ _ (congrArg _ hproperties) hbehind

end

/-! ## The lines of a text -/

/-- The lines that are written for a document. -/
def writtenLines (options : Options) (root : Section) : List Line :=
  sourceLines (namespaceName options.enclosing) (Class.plan options root)

/-- A text keeps the lines that are written: it ends lines with their line feeds and nowhere else, so that a reader sees
these lines, and the empty one behind them. -/
structure KeepsLines (text : String) (lines : List Line) : Prop where
  ends : text.toList.filter endsLine = List.replicate lines.length '\n'
  lines : textLines text = lines.map Line.indented ++ [[]]

theorem keepsLines_renderLines_iff {lines : List Line} :
    KeepsLines (renderLines lines) lines ↔ AllLack endsLine lines := by
  have hends : (renderLines lines).toList.filter endsLine = _ ↔ _ :=
    filter_renderLines_eq_iff (by decide) (by decide) lines
  refine ⟨fun h => hends.mp h.ends, fun h => ⟨hends.mpr h, ?_⟩⟩
  exact splitOnP_renderLines (by decide) (by decide) h

theorem allLack_writtenLines_iff {kind : Char → Bool} (hkind : ∀ c, kind c = true → endsLine c = true)
    (options : Options) {root : Section} (hroot : root.HasWellFormedNames) :
    AllLack kind (writtenLines options root) ↔ root.Each (CommentLacks kind) := by
  have hname := Identifier.isWellFormed_ofKey options.rootType
  have hopening := (allLack_openingLines options).mono hkind
  have hclass := (showsClass root (Identifier.ofKey options.rootType).text 0 hroot).allLack_iff hkind hname
  have hlines : writtenLines options root =
      openingLines options ++ classLines 0 (planClass (Identifier.ofKey options.rootType).text root) := rfl
  rw [hlines, allLack_append, hclass, and_iff_right hopening]

/-- **The text of a section keeps its lines where the comments do**, and only there. -/
theorem keepsLines_source_iff (options : Options) {root : Section} (hroot : root.HasWellFormedNames) :
    KeepsLines (source options root) (writtenLines options root) ↔ root.Each HasOneLineComment := by
  have hlines := allLack_writtenLines_iff (fun _ hc => hc) options hroot
  have hcomments : root.Each (CommentLacks endsLine) ↔ root.Each HasOneLineComment :=
    ⟨fun h => h.mono fun _ => commentLacks_endsLine_iff.mp, fun h => h.mono fun _ => commentLacks_endsLine_iff.mpr⟩
  exact keepsLines_renderLines_iff.trans (hlines.trans hcomments)

theorem hasOneLineComment_keyless (accessor : Accessor) : HasOneLineComment accessor.keyless := by
  intro _ c hc
  rw [show accessor.keyless.address = accessor.address.keyless from rfl, Address.text_keyless] at hc
  cases hc

/-- **No key is code**: where the comments stay on their lines, the code is that of the document without keys. -/
theorem codeOf_source_keyless (options : Options) {root : Section} (hroot : root.HasWellFormedNames)
    (hcomments : root.Each HasOneLineComment) :
    codeOf (source options root) = codeOf (source options root.keyless) := by
  have hnames : root.keyless.HasWellFormedNames := each_keyless (fun _ h => h) hroot
  have hkeyless : root.keyless.Each HasOneLineComment := each_keyless (fun _ _ => hasOneLineComment_keyless _) hcomments
  have hlines : ∀ {s : Section}, s.HasWellFormedNames → s.Each HasOneLineComment →
      AllLack endsLine (writtenLines options s) := fun hs h =>
    keepsLines_renderLines_iff.mp ((keepsLines_source_iff options hs).mpr h)
  have hclass := codeLines_classLines_keyless root (Identifier.ofKey options.rootType).text 0 hroot hcomments
  have hcode : codeLines (writtenLines options root) = codeLines (writtenLines options root.keyless) := by
    have hwritten : ∀ s, codeLines (writtenLines options s) = codeLines (openingLines options) ++
        codeLines (classLines 0 (planClass (Identifier.ofKey options.rootType).text s)) :=
      fun s => codeLines_append _ _
    rw [hwritten, hwritten, hclass]
  have htexts : ∀ s, source options s = renderLines (writtenLines options s) := fun _ => rfl
  rw [htexts, htexts, codeOf_renderLines (hlines hroot hcomments), codeOf_renderLines (hlines hnames hkeyless), hcode]

/-! ## Documents -/

/-- No key that is exposed has a separator of lines or paragraphs. -/
def HasOneLineKeys (onNull : OnNull) (value : Value) : Prop :=
  ∀ member ∈ value.reached .root, onNull.exposes member.value = true → Lacks isSeparator member.key

theorem lacks_isSeparator_of_isPlain {key : String} (h : Key.isPlain key = true) : Lacks isSeparator key := by
  intro c hc
  have hchar : (isWordChar c || c == '_') = true := List.all_eq_true.mp (Bool.and_eq_true_iff.mp h).2 c hc
  rw [← Bool.not_eq_true]
  intro hseparator
  obtain ⟨hword, hne⟩ := not_isWordChar_of_endsLine (endsLine_of_isSeparator hseparator)
  rw [hword, beq_false_of_ne hne] at hchar
  cases hchar

section Documents

variable {options : Options} {value : Value} {schema : Schema}

/-- **The comments of a schema stay on their lines where the exposed keys do.** -/
theorem each_hasOneLineComment_iff (h : Schema.ofValue options value = .ok schema) :
    schema.root.Each HasOneLineComment ↔ HasOneLineKeys options.onNull value := by
  obtain ⟨members, rfl⟩ := exists_object h
  obtain ⟨accounts, haccounts⟩ := exists_accounts h
  have hexposed := haccounts.exposed
  rw [Section.each_iff_exposures]
  constructor
  · intro hcomments member hmem hexposes
    obtain ⟨exposure, hexposure, hshows⟩ := exists_mem_of_forall₂ hexposed.flip member
      (List.mem_filter.mpr ⟨hmem, hexposes⟩)
    by_cases hplain : Key.isPlain member.key = true
    · exact lacks_isSeparator_of_isPlain hplain
    · have hlacks := hcomments exposure hexposure (by rw [hshows.key]; exact eq_false_of_ne_true hplain)
      rw [hshows.address] at hlacks
      exact lacks_of_intercalate hlacks member.key (List.mem_append_right _ (List.mem_singleton_self _))
  · intro hkeys exposure hexposure _
    obtain ⟨member, hmem, hshows⟩ := exists_mem_of_forall₂ hexposed exposure hexposure
    obtain ⟨hmem, hexposes⟩ := List.mem_filter.mp hmem
    rw [hshows.address]
    refine lacks_intercalate (lacks_ofList (by decide)) fun key hkey => ?_
    rcases List.mem_append.mp hkey with hkey | hkey
    · -- a key in front is that of an object, and objects are exposed
      rcases Value.exists_reached_of_mem_keys hmem key hkey with hroot | ⟨outer, houter, rfl, inner, hinner⟩
      · cases hroot
      · exact hkeys outer houter (by rw [hinner]; exact exposes_object _ inner)
    · rw [List.mem_singleton.mp hkey]
      exact hkeys member hmem hexposes

theorem hasWellFormedNames_of_ofValue (h : Schema.ofValue options value = .ok schema) :
    schema.root.HasWellFormedNames := by
  obtain ⟨members, rfl⟩ := exists_object h
  exact fun s hs => (isNamed_of_mem_walk h s hs).wellFormed

theorem source_eq (htarget : options.target = .csharp) (schema : Schema) :
    schema.source options = source options schema.root := by
  rw [Schema.source, Section.source, htarget]
  exact String.empty_append

/-- **The text of a document keeps its lines where no exposed key has a separator**, and only there. Whatever the keys,
its other line ends are the line feeds of the lines that are written; and where it keeps its lines, no key is code. -/
theorem source_keepsLines_iff (htarget : options.target = .csharp) (h : Schema.ofValue options value = .ok schema) :
    (KeepsLines (schema.source options) (writtenLines options schema.root) ↔ HasOneLineKeys options.onNull value) ∧
      (schema.source options).toList.filter isHardEnd =
        List.replicate (writtenLines options schema.root).length '\n' ∧
      (HasOneLineKeys options.onNull value →
        codeOf (schema.source options) = codeOf (source options schema.root.keyless)) := by
  have hnames := hasWellFormedNames_of_ofValue h
  have hcomments := each_hasOneLineComment_iff h
  have hhard : AllLack isHardEnd (writtenLines options schema.root) :=
    (allLack_writtenLines_iff (fun _ => endsLine_of_isHardEnd) options hnames).mpr
      fun _ _ accessor _ _ => lacks_isHardEnd_summaryText accessor.address.text
  rw [source_eq htarget]
  refine ⟨(keepsLines_source_iff options hnames).trans hcomments, ?_, fun hkeys => ?_⟩
  · exact (filter_renderLines_eq_iff (by decide) (by decide) _).mpr hhard
  · exact codeOf_source_keyless options hnames (hcomments.mpr hkeys)

/-- The hypotheses are met by a document whose keys hold quotes, marks of a comment, a line feed and U+0085, and a
separator in a key that is skipped. -/
theorem source_keepsLines_iff_hostile : ∃ schema,
    Schema.ofValue { target := .csharp } (.object [("\");\n", .object [("*/ \u0085//", .bool true)]),
      ("\u2028", .null)]) = .ok schema ∧
    HasOneLineKeys .skip (.object [("\");\n", .object [("*/ \u0085//", .bool true)]), ("\u2028", .null)]) ∧
    KeepsLines (schema.source { target := .csharp }) (writtenLines { target := .csharp } schema.root) ∧
    codeOf (schema.source { target := .csharp }) = codeOf (source { target := .csharp } schema.root.keyless) := by
  refine exists_of_isOk (by decide) fun schema h => ?_
  have hkeys : HasOneLineKeys .skip (.object [("\");\n", .object [("*/ \u0085//", .bool true)]),
      ("\u2028", .null)]) := by
    unfold HasOneLineKeys
    decide
  obtain ⟨hlines, -, hcode⟩ := source_keepsLines_iff rfl h
  exact ⟨hkeys, hlines.mpr hkeys, hcode hkeys⟩

/-- **A key with a separator breaks its comment**: the document has one key, and its text has one line more than is
written. -/
theorem not_keepsLines_of_separator : ∃ schema,
    Schema.ofValue { target := .csharp } (.object [("a\u2028b", .bool true)]) = .ok schema ∧
    ¬KeepsLines (schema.source { target := .csharp }) (writtenLines { target := .csharp } schema.root) := by
  refine exists_of_isOk (by decide) fun schema h hlines => ?_
  rw [source_eq rfl schema, keepsLines_source_iff _ (hasWellFormedNames_of_ofValue h), each_hasOneLineComment_iff h]
    at hlines
  have hlacks : Lacks isSeparator "a\u2028b" := hlines ⟨.root, "a\u2028b", .bool true⟩ List.mem_cons_self rfl
  exact absurd hlacks (by decide)

end Documents

end TypedSettings.Classes
