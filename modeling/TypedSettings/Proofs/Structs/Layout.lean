import TypedSettings.Proofs.Address
import TypedSettings.Proofs.Structs.Plan
import TypedSettings.Proofs.Text.Quoted
import TypedSettings.Structs.Source

/-!
# The text of the module of structs

The lines that show a method and a struct are described apart from the functions that write them: `Method.IsShown` says
what stands in the signature and in the body, with the type and the reading expression of every kind in a table
(`Gives.Reads`) and the address as any text that reads as it (`Text.IsQuotedOf`), and `Struct.IsShown` which lines
declare a struct, and which methods stand in which order: the one that makes it (`Struct.IsMade`), those of the
accessors, and the lookup (`Struct.LooksUp`). `moduleLines` are the lines around the structs.

* `Struct.isShown_lines`: the lines that are written for a struct show it;
* `source_isLaidOut`: the text has one block for every section, in the order of the sections, and no key adds a line;
* `source_names_types`: all types have different names, and each use of a name means the type for that section.
-/

namespace TypedSettings.Structs

open Text

/-! ## What lines show -/

/-- The type of what is read, and what stands in front of the literal of the address and behind it. -/
inductive Gives.Reads : Gives → String → String → String → Prop
  | string : Reads (.scalar .string) "String" "self.provider.get(" ").unwrap_or_default()"
  | integer :
    Reads (.scalar .integer) "i32" "self.provider.get(" ").and_then(|v| v.trim().parse().ok()).unwrap_or(0)"
  | float :
    Reads (.scalar .float) "f64" "self.provider.get(" ").and_then(|v| v.trim().parse().ok()).unwrap_or(0.0)"
  | boolean :
    Reads (.scalar .boolean) "bool" "self.provider.get(" ").is_some_and(|v| v.trim().eq_ignore_ascii_case(\"true\"))"
  | list : Reads .list "Vec<String>" "self.provider.children(" ")"

/-- The lines of a method: one that reads at a literal of its address, or one that makes a struct over the same
provider. -/
inductive Method.IsShown (method : Method) : List Line → Prop
  | reads {type before behind key : String} : method.gives.Reads type before behind →
      IsQuotedOf method.address.text key → method.IsShown
        [ ⟨2, "/// Configuration key: " ++ key⟩,
          ⟨2, "pub fn " ++ method.name ++ "(&self) -> " ++ type ++ " \x7b"⟩,
          ⟨3, before ++ key ++ behind⟩,
          ⟨2, "\x7d"⟩ ]
  | makes {type key : String} : method.gives = .struct type → IsQuotedOf method.address.text key → method.IsShown
        [ ⟨2, "/// Configuration section: " ++ key⟩,
          ⟨2, "pub fn " ++ method.name ++ "(&self) -> " ++ (type ++ "<'a>") ++ " \x7b"⟩,
          ⟨3, type ++ " \x7b provider: self.provider \x7d"⟩,
          ⟨2, "\x7d"⟩ ]

/-- The comment of a struct: a fixed one for the root's, and one with the address of the section for any other. -/
inductive Struct.IsCommented (struct : Struct) : String → Prop
  | root : struct.isRoot = true → struct.IsCommented "/// Typed view over the whole configuration document."
  | inner {key : String} : struct.isRoot = false → IsQuotedOf struct.address.text key →
    struct.IsCommented ("/// Accessors under " ++ key ++ ".")

/-- The methods in front of those of the accessors: the root's struct has one, which makes it. -/
inductive Struct.IsMade (provider : String) (struct : Struct) : List (List Line) → Prop
  | root : struct.isRoot = true → struct.IsMade provider
      [ [ ⟨2, "pub fn new(provider: &'a dyn " ++ provider ++ ") -> Self \x7b"⟩,
          ⟨3, "Self \x7b provider \x7d"⟩,
          ⟨2, "\x7d"⟩ ] ]
  | inner : struct.isRoot = false → struct.IsMade provider []

/-- The expression that reads a key below an address: at the key itself for the root's, and elsewhere at the key behind
the address and a colon. -/
inductive ReadsBelow : Address → String → Prop
  | root : ReadsBelow .root "self.provider.get(key)"
  | inner {address : Address} {stem : String} : address ≠ .root → IsQuotedOf (address.text ++ ":") stem →
    ReadsBelow address ("self.provider.get(&[" ++ stem ++ ", key].concat())")

/-- The methods behind those of the accessors: a struct with a lookup has one, which reads any key below its address. -/
inductive Struct.LooksUp (struct : Struct) : List (List Line) → Prop
  | any {body : String} : struct.hasLookup = true → ReadsBelow struct.address body → struct.LooksUp
      [ [ ⟨2, "/// Value by exact key name, for keys whose accessor name differs from the key."⟩,
          ⟨2, "pub fn get(&self, key: &str) -> String \x7b"⟩,
          ⟨3, body ++ ".unwrap_or_default()"⟩,
          ⟨2, "\x7d"⟩ ] ]
  | none : struct.hasLookup = false → struct.LooksUp []

/-- The lines of a struct over a provider trait: its declaration, and its methods with an empty line between any two,
those of the accessors between the one that makes the root's struct and the lookup. -/
inductive Struct.IsShown (provider : String) (struct : Struct) : List Line → Prop
  | intro {comment : String} {made methods lookups : List (List Line)} : struct.IsCommented comment →
      struct.IsMade provider made → List.Forall₂ Method.IsShown struct.methods methods → struct.LooksUp lookups →
      struct.IsShown provider
      ([ ⟨0, ""⟩,
          ⟨1, comment⟩,
          ⟨1, "#[derive(Clone, Copy)]"⟩,
          ⟨1, "pub struct " ++ struct.name ++ "<'a> \x7b"⟩,
          ⟨2, "provider: &'a dyn " ++ provider ++ ","⟩,
          ⟨1, "\x7d"⟩,
          ⟨0, ""⟩,
          ⟨1, "impl<'a> " ++ struct.name ++ "<'a> \x7b"⟩ ] ++
        [⟨0, ""⟩].intercalate (made ++ methods ++ lookups) ++
        [⟨1, "\x7d"⟩])

/-- The lines of a module with the given blocks: the header, the line that opens the module, the provider trait, the
blocks and the closing brace. -/
def moduleLines (options : Options) (provider : String) (blocks : List (List Line)) : List Line :=
  [ ⟨0, "// @generated by json-settings-gen. Do not edit."⟩,
    ⟨0, ""⟩,
    ⟨0, "pub mod " ++ moduleName options ++ " \x7b"⟩,
    ⟨1, "#![allow(dead_code, non_camel_case_types, clippy::all)]"⟩,
    ⟨0, ""⟩,
    ⟨1, "/// Colon-addressed configuration source the accessors read from."⟩,
    ⟨1, "pub trait " ++ provider ++ " \x7b"⟩,
    ⟨2, "/// Raw value at `path`, if set."⟩,
    ⟨2, "fn get(&self, path: &str) -> Option<String>;"⟩,
    ⟨0, ""⟩,
    ⟨2, "/// Values of the direct children of `path`, in order. Empty if unset."⟩,
    ⟨2, "fn children(&self, path: &str) -> Vec<String>;"⟩,
    ⟨1, "\x7d"⟩ ] ++
  blocks.flatten ++ [⟨0, "\x7d"⟩]

theorem Method.isShown_lines (method : Method) : method.IsShown method.lines := by
  obtain ⟨name, address, gives⟩ := method
  have hkey : IsQuotedOf address.text (literal address) := isQuotedOf_quoted address.text
  cases gives with
  | scalar kind =>
    cases kind with
    | string => exact .reads .string hkey
    | integer => exact .reads .integer hkey
    | float => exact .reads .float hkey
    | boolean => exact .reads .boolean hkey
  | list => exact .reads .list hkey
  | struct type => exact .makes rfl hkey

theorem Struct.isCommented_comment (struct : Struct) : struct.IsCommented struct.comment := by
  unfold Struct.comment
  split_ifs with hroot
  · exact .root hroot
  · exact .inner (eq_false_of_ne_true hroot) (isQuotedOf_quoted struct.address.text)

theorem Struct.isMade_makeLines (provider : String) (struct : Struct) :
    struct.IsMade provider (if struct.isRoot then [makeLines provider] else []) := by
  split_ifs with hroot
  · exact .root hroot
  · exact .inner (eq_false_of_ne_true hroot)

theorem readsBelow_lookupBody (address : Address) : ReadsBelow address (lookupBody address) := by
  rw [lookupBody, address.isEmpty_stem]
  split_ifs with hroot
  · rw [Address.isRoot_iff.mp hroot]
    exact .root
  · have hstem : address.stem = address.text ++ ":" := if_neg hroot
    rw [hstem]
    exact .inner (fun heq => hroot (Address.isRoot_iff.mpr heq)) (isQuotedOf_quoted _)

theorem Struct.looksUp_lookupLines (struct : Struct) :
    struct.LooksUp (if struct.hasLookup then [lookupLines struct.address] else []) := by
  split_ifs with hlookup
  · exact .any hlookup (readsBelow_lookupBody struct.address)
  · exact .none (eq_false_of_ne_true hlookup)

/-- **The lines that are written for a struct show it.** -/
theorem Struct.isShown_lines (provider : String) (struct : Struct) : struct.IsShown provider (struct.lines provider) :=
  .intro struct.isCommented_comment (struct.isMade_makeLines provider)
    (List.forall₂_map_right_iff.mpr (List.forall₂_same.mpr fun method _ => method.isShown_lines))
    struct.looksUp_lookupLines

theorem forall₂_isShown (provider : String) (structs : List Struct) :
    List.Forall₂ (Struct.IsShown provider) structs (structs.map (Struct.lines provider)) :=
  List.forall₂_map_right_iff.mpr (List.forall₂_same.mpr fun struct _ => struct.isShown_lines provider)

/-! ## No line feed inside a line -/

theorem Method.HasNameTexts.allLack_lines {method : Method} (h : method.HasNameTexts) :
    AllLack isLineFeed method.lines := by
  obtain ⟨name, address, gives⟩ := method
  obtain ⟨hname, htype⟩ := h
  have hkey : Lacks isLineFeed (literal address) := lacks_quoted address.text
  have hword : Lacks isLineFeed gives.addressWord := by cases gives <;> exact lacks_ofList (by decide)
  have hreturn : Lacks isLineFeed gives.type := by
    cases gives with
    | scalar kind => cases kind <;> exact lacks_ofList (by decide)
    | list => exact lacks_ofList (by decide)
    | struct type => exact (htype type rfl).lacks_lineFeed.append (lacks_ofList (by decide))
  have hbody : Lacks isLineFeed (gives.body (literal address)) := by
    cases gives with
    | scalar kind =>
      cases kind <;> exact ((lacks_ofList (by decide)).append hkey).append (lacks_ofList (by decide))
    | list => exact ((lacks_ofList (by decide)).append hkey).append (lacks_ofList (by decide))
    | struct type => exact (htype type rfl).lacks_lineFeed.append (lacks_ofList (by decide))
  refine .cons ?_ <| .cons ?_ <| .cons hbody <| .cons (lacks_ofList (by decide)) allLack_nil
  · exact (((lacks_ofList (by decide)).append hword).append (lacks_ofList (by decide))).append hkey
  · exact ((((lacks_ofList (by decide)).append hname).append (lacks_ofList (by decide))).append hreturn).append
      (lacks_ofList (by decide))

theorem allLack_makeLines {provider : String} (h : IsNameText provider) :
    AllLack isLineFeed (makeLines provider) := by
  refine .cons ?_ <| .cons (lacks_ofList (by decide)) <| .cons (lacks_ofList (by decide)) allLack_nil
  exact ((((lacks_ofList (by decide)).append (lacks_ofList (by decide))).append (lacks_ofList (by decide))).append
    h.lacks_lineFeed).append (lacks_ofList (by decide))

theorem allLack_lookupLines (address : Address) : AllLack isLineFeed (lookupLines address) := by
  have hbody : Lacks isLineFeed (lookupBody address) := by
    unfold lookupBody
    split
    · exact lacks_ofList (by decide)
    · exact ((lacks_ofList (by decide)).append (lacks_quoted address.stem)).append (lacks_ofList (by decide))
  refine .cons (lacks_ofList (by decide)) <| .cons ?_ <| .cons (hbody.append (lacks_ofList (by decide))) <|
    .cons (lacks_ofList (by decide)) allLack_nil
  exact ((lacks_ofList (by decide)).append (lacks_ofList (by decide))).append (lacks_ofList (by decide))

theorem Struct.HasNameTexts.allLack_lines {provider : String} (hprovider : IsNameText provider) {struct : Struct}
    (h : struct.HasNameTexts) : AllLack isLineFeed (struct.lines provider) := by
  have hname := h.name.lacks_lineFeed
  have hcomment : Lacks isLineFeed struct.comment := by
    unfold Struct.comment
    split
    · exact lacks_ofList (by decide)
    · exact ((lacks_ofList (by decide)).append (lacks_quoted struct.address.text)).append (lacks_ofList (by decide))
  have hmethods : ∀ group ∈ struct.methodLines provider, AllLack isLineFeed group := by
    intro group hmem
    rcases List.mem_append.mp hmem with hmem | hmem
    · rcases List.mem_append.mp hmem with hmem | hmem
      · split at hmem
        · rw [List.mem_singleton.mp hmem]
          exact allLack_makeLines hprovider
        · cases hmem
      · obtain ⟨method, hmethod, rfl⟩ := List.mem_map.mp hmem
        exact (h.methods method hmethod).allLack_lines
    · split at hmem
      · rw [List.mem_singleton.mp hmem]
        exact allLack_lookupLines struct.address
      · cases hmem
  refine (AllLack.append ?_ (allLack_parted hmethods)).append (.cons (lacks_ofList (by decide)) allLack_nil)
  refine .cons lacks_blank <| .cons hcomment <| .cons (lacks_ofList (by decide)) <| .cons ?_ <| .cons ?_ <|
    .cons (lacks_ofList (by decide)) <| .cons lacks_blank <| .cons ?_ allLack_nil
  · exact ((lacks_ofList (by decide)).append hname).append (lacks_ofList (by decide))
  · exact ((lacks_ofList (by decide)).append hprovider.lacks_lineFeed).append (lacks_ofList (by decide))
  · exact ((lacks_ofList (by decide)).append hname).append (lacks_ofList (by decide))

theorem allLack_traitLines {provider : String} (h : IsNameText provider) :
    AllLack isLineFeed (traitLines provider) := by
  refine .cons (lacks_ofList (by decide)) <| .cons ?_ <| .cons (lacks_ofList (by decide)) <|
    .cons (lacks_ofList (by decide)) <| .cons lacks_blank <| .cons (lacks_ofList (by decide)) <|
    .cons (lacks_ofList (by decide)) <| .cons (lacks_ofList (by decide)) allLack_nil
  exact ((lacks_ofList (by decide)).append h.lacks_lineFeed).append (lacks_ofList (by decide))

/-- **No line of a module has a line feed inside**, where no name in it has one. -/
theorem Module.HasNameTexts.allLack_lines {m : Module} (h : m.HasNameTexts) : AllLack isLineFeed m.lines := by
  have hstructs : AllLack isLineFeed (m.structs.flatMap (Struct.lines m.provider)) :=
    allLack_flatMap fun struct hmem => (h.structs struct hmem).allLack_lines h.provider
  refine (AllLack.append (AllLack.append ?_ (allLack_traitLines h.provider)) hstructs).append
    (.cons (lacks_ofList (by decide)) allLack_nil)
  refine .cons ?_ <| .cons lacks_blank <| .cons ?_ <| .cons (lacks_ofList (by decide)) <| .cons lacks_blank allLack_nil
  · exact ((lacks_ofList (by decide)).append (lacks_ofList (by decide))).append (lacks_ofList (by decide))
  · exact ((lacks_ofList (by decide)).append h.name).append (lacks_ofList (by decide))

/-! ## The text of a document -/

/-- The text of a document is that of its module. -/
theorem source_spec (options : Options) (root : Section) :
    ∃ m struct inner, Module.PlannedFor options root m struct inner ∧ source options root = renderLines m.lines ∧
      (root.HasWellFormedNames → m.HasNameTexts) := by
  obtain ⟨struct, inner, hplan⟩ := plan_spec options (Scope.empty "") root
  exact ⟨_, struct, inner, hplan, String.empty_append, plan_names options (fun _ h => by cases h)⟩

theorem Module.lines_eq {options : Options} {m : Module} (h : m.name = moduleName options) :
    m.lines = moduleLines options m.provider (m.structs.map (Struct.lines m.provider)) := by
  rw [Module.lines, h, List.flatMap_def]
  rfl

theorem Module.PlannedFor.lines_eq {options : Options} {root : Section} {m : Module} {struct : Struct}
    {inner : List Struct} (h : m.PlannedFor options root struct inner) :
    m.lines = moduleLines options m.provider ((struct :: inner).map (Struct.lines m.provider)) := by
  rw [Module.lines_eq h.name, h.structs]

/-- A block shows a section: its lines show a struct that stands for the section. -/
def ShowsSection (provider : String) (isRoot : Bool) (s : Section) (block : List Line) : Prop :=
  ∃ struct : Struct, struct.StandsFor isRoot s ∧ struct.IsShown provider block

theorem forall₂_showsSection {provider : String} {isRoot : Bool} {sections : List Section} {structs : List Struct}
    (h : List.Forall₂ (Struct.StandsFor isRoot) sections structs) :
    List.Forall₂ (ShowsSection provider isRoot) sections (structs.map (Struct.lines provider)) :=
  List.forall₂_map_right_iff.mpr (h.imp fun _ struct hstands => ⟨struct, hstands, struct.isShown_lines provider⟩)

/-- **The text has one block for every section**, in the order of the sections; and every line feed in it ends a line,
whatever the keys are. -/
theorem source_isLaidOut (options : Options) (root : Section) :
    ∃ provider first blocks, ShowsSection provider true root first ∧
      List.Forall₂ (ShowsSection provider false) root.walk.tail blocks ∧
      source options root = renderLines (moduleLines options provider (first :: blocks)) ∧
      (root.HasWellFormedNames → (source options root).toList.count '\n' =
        (moduleLines options provider (first :: blocks)).length) := by
  obtain ⟨m, struct, inner, hplan, htext, hnames⟩ := source_spec options root
  obtain ⟨hfirst, hinner⟩ := hplan.planned.forall₂_walk
  refine ⟨m.provider, struct.lines m.provider, inner.map (Struct.lines m.provider),
    ⟨struct, hfirst, struct.isShown_lines m.provider⟩, ?_, ?_, fun hroot => ?_⟩
  · rw [walk_eq]
    exact forall₂_showsSection hinner
  · rw [htext, hplan.lines_eq, List.map_cons]
  · rw [htext, count_renderLines (hnames hroot).allLack_lines, hplan.lines_eq, List.map_cons]

/-- The lines of the hostile document. -/
def hostileLines : List Line :=
  [ ⟨0, "// @generated by json-settings-gen. Do not edit."⟩,
    ⟨0, ""⟩,
    ⟨0, "pub mod app_settings \x7b"⟩,
    ⟨1, "#![allow(dead_code, non_camel_case_types, clippy::all)]"⟩,
    ⟨0, ""⟩,
    ⟨1, "/// Colon-addressed configuration source the accessors read from."⟩,
    ⟨1, "pub trait ConfigProvider \x7b"⟩,
    ⟨2, "/// Raw value at `path`, if set."⟩,
    ⟨2, "fn get(&self, path: &str) -> Option<String>;"⟩,
    ⟨0, ""⟩,
    ⟨2, "/// Values of the direct children of `path`, in order. Empty if unset."⟩,
    ⟨2, "fn children(&self, path: &str) -> Vec<String>;"⟩,
    ⟨1, "\x7d"⟩,
    ⟨0, ""⟩,
    ⟨1, "/// Typed view over the whole configuration document."⟩,
    ⟨1, "#[derive(Clone, Copy)]"⟩,
    ⟨1, "pub struct AppSettings<'a> \x7b"⟩,
    ⟨2, "provider: &'a dyn ConfigProvider,"⟩,
    ⟨1, "\x7d"⟩,
    ⟨0, ""⟩,
    ⟨1, "impl<'a> AppSettings<'a> \x7b"⟩,
    ⟨2, "pub fn new(provider: &'a dyn ConfigProvider) -> Self \x7b"⟩,
    ⟨3, "Self \x7b provider \x7d"⟩,
    ⟨2, "\x7d"⟩,
    ⟨0, ""⟩,
    ⟨2, "/// Configuration key: \"a\\\");\\n\x7db\""⟩,
    ⟨2, "pub fn ab(&self) -> Vec<String> \x7b"⟩,
    ⟨3, "self.provider.children(\"a\\\");\\n\x7db\")"⟩,
    ⟨2, "\x7d"⟩,
    ⟨0, ""⟩,
    ⟨2, "/// Configuration section: \"1\\\\\""⟩,
    ⟨2, "pub fn _1(&self) -> _1Settings<'a> \x7b"⟩,
    ⟨3, "_1Settings \x7b provider: self.provider \x7d"⟩,
    ⟨2, "\x7d"⟩,
    ⟨0, ""⟩,
    ⟨2, "/// Value by exact key name, for keys whose accessor name differs from the key."⟩,
    ⟨2, "pub fn get(&self, key: &str) -> String \x7b"⟩,
    ⟨3, "self.provider.get(key).unwrap_or_default()"⟩,
    ⟨2, "\x7d"⟩,
    ⟨1, "\x7d"⟩,
    ⟨0, ""⟩,
    ⟨1, "/// Accessors under \"1\\\\\"."⟩,
    ⟨1, "#[derive(Clone, Copy)]"⟩,
    ⟨1, "pub struct _1Settings<'a> \x7b"⟩,
    ⟨2, "provider: &'a dyn ConfigProvider,"⟩,
    ⟨1, "\x7d"⟩,
    ⟨0, ""⟩,
    ⟨1, "impl<'a> _1Settings<'a> \x7b"⟩,
    ⟨2, "/// Configuration key: \"1\\\\:\\nc\""⟩,
    ⟨2, "pub fn c(&self) -> i32 \x7b"⟩,
    ⟨3, "self.provider.get(\"1\\\\:\\nc\").and_then(|v| v.trim().parse().ok()).unwrap_or(0)"⟩,
    ⟨2, "\x7d"⟩,
    ⟨0, ""⟩,
    ⟨2, "/// Configuration key: \"1\\\\:c\\u\x7b85\x7d\""⟩,
    ⟨2, "pub fn c_2(&self) -> String \x7b"⟩,
    ⟨3, "self.provider.get(\"1\\\\:c\\u\x7b85\x7d\").unwrap_or_default()"⟩,
    ⟨2, "\x7d"⟩,
    ⟨0, ""⟩,
    ⟨2, "/// Value by exact key name, for keys whose accessor name differs from the key."⟩,
    ⟨2, "pub fn get(&self, key: &str) -> String \x7b"⟩,
    ⟨3, "self.provider.get(&[\"1\\\\:\", key].concat()).unwrap_or_default()"⟩,
    ⟨2, "\x7d"⟩,
    ⟨1, "\x7d"⟩,
    ⟨0, "\x7d"⟩ ]

theorem source_isLaidOut_hostile : Section.hostile.HasWellFormedNames ∧
    source {} Section.hostile = renderLines hostileLines ∧
    ∃ provider first blocks, ShowsSection provider true Section.hostile first ∧
      List.Forall₂ (ShowsSection provider false) Section.hostile.walk.tail blocks ∧
      source {} Section.hostile = renderLines (moduleLines {} provider (first :: blocks)) ∧
      (source {} Section.hostile).toList.count '\n' = (moduleLines {} provider (first :: blocks)).length := by
  obtain ⟨provider, first, blocks, hfirst, hblocks, htext, hfeeds⟩ := source_isLaidOut {} Section.hostile
  have hlines : (Module.plan {} (Scope.empty "") Section.hostile).1.lines = hostileLines := by decide +kernel
  refine ⟨Section.hasWellFormedNames_hostile, ?_, provider, first, blocks, hfirst, hblocks, htext,
    hfeeds Section.hasWellFormedNames_hostile⟩
  rw [← hlines]
  exact String.empty_append

/-- **All types have different names, and each name means the type for its section**: the trait, the struct of the root
and those of the sections inside. -/
theorem source_names_types (options : Options) (root : Section) :
    ∃ provider struct inner blocks, Planned true root struct inner ∧
      (provider :: (struct :: inner).map Struct.name).Nodup ∧
      List.Forall₂ (Struct.IsShown provider) (struct :: inner) blocks ∧
      source options root = renderLines (moduleLines options provider blocks) := by
  obtain ⟨m, struct, inner, hplan, htext, -⟩ := source_spec options root
  refine ⟨m.provider, struct, inner, _, hplan.planned, ?_, forall₂_isShown m.provider (struct :: inner), ?_⟩
  · rw [← hplan.structs]
    exact hplan.distinct
  · rw [htext, hplan.lines_eq]

/-- Where two chains of identifiers meet in one name, the later one is numbered. -/
example : (Module.plan {} (Scope.empty "") ⟨.root, 0,
      [ ⟨⟨"A"⟩, "A", ⟨["A"]⟩, .nested ⟨⟨["A"]⟩, 1,
          [⟨⟨"BC"⟩, "BC", ⟨["A", "BC"]⟩, .nested ⟨⟨["A", "BC"]⟩, 2, [], false⟩⟩], false⟩⟩,
        ⟨⟨"AB"⟩, "AB", ⟨["AB"]⟩, .nested ⟨⟨["AB"]⟩, 1,
          [⟨⟨"C"⟩, "C", ⟨["AB", "C"]⟩, .nested ⟨⟨["AB", "C"]⟩, 2, [], false⟩⟩], false⟩⟩ ],
      false⟩).1.structs.map Struct.name =
    ["AppSettings", "ASettings", "ABCSettings", "ABSettings", "ABCSettings2"] := by rfl

end TypedSettings.Structs
