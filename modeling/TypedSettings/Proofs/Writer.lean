import TypedSettings.Proofs.Structs.Declarations
import TypedSettings.Source

/-!
# Several documents by one writer

A writer goes on behind what it has written. For classes it keeps nothing but the text, so each document has the text
that it has on its own. For structs it keeps the type names in use: the modules of later documents are planned clear of
those of earlier ones, which stay as they are.

* `Module.planAll`: the modules of the documents, each planned with the names that the earlier ones have given out;
* `planAll_fresh`: so no type name is given out twice, in the same module or in two;
* `writeAll_inTurn`: what this says about the text.
-/

namespace TypedSettings

namespace Structs

open Text

/-! ## Modules one after the other -/

/-- The modules of documents, given the type names in use. -/
def Module.planAll (options : Options) : Scope → List Section → List Module
  | _, [] => []
  | types, root :: roots => (plan options types root).1 :: planAll options (plan options types root).2 roots

/-- The writer behind the modules of documents. -/
def Writer.writeAll (options : Options) (roots : List Section) (writer : Writer) : Writer :=
  roots.foldl (Writer.write options) writer

/-- A module shows the section of a document: its lines show the structs that are planned for the section and those
inside, all over the trait of the module. -/
def Module.Shows (options : Options) (root : Section) (m : Module) : Prop :=
  ∃ struct inner blocks, m.PlannedFor options root struct inner ∧
    List.Forall₂ (Struct.IsShown m.provider) (struct :: inner) blocks ∧
    m.lines = moduleLines options m.provider blocks

section Modules

variable {options : Options}

theorem shows_plan (types : Scope) (root : Section) : (Module.plan options types root).1.Shows options root := by
  obtain ⟨struct, inner, hplan⟩ := plan_spec options types root
  exact ⟨struct, inner, _, hplan, forall₂_isShown _ (struct :: inner), hplan.lines_eq⟩

theorem forall₂_shows : ∀ (roots : List Section) (types : Scope),
    List.Forall₂ (Module.Shows options) roots (Module.planAll options types roots)
  | [], _ => .nil
  | root :: roots, types => .cons (shows_plan types root) (forall₂_shows roots _)

theorem Writer.write_eq (writer : Writer) (root : Section) : writer.write options root =
    ⟨(Module.plan options writer.types root).2, writer.text ++ (Module.plan options writer.types root).1.text⟩ := rfl

/-- The text grows by the lines of the modules. -/
theorem Writer.text_eq : ∀ (roots : List Section) (writer : Writer),
    (writer.writeAll options roots).text =
      writer.text ++ renderLines ((Module.planAll options writer.types roots).flatMap Module.lines)
  | [], writer => String.append_empty.symm
  | root :: roots, writer => by
    rw [Writer.writeAll, List.foldl_cons, ← Writer.writeAll, text_eq roots, write_eq, Module.planAll,
      List.flatMap_cons, renderLines_append, Module.text, String.append_assoc]

/-- What is not in use although the names of the module's own types are kept was not in use before. -/
theorem holds_of_reservePrelude {types : Scope} {name : String} (h : (reservePrelude types).holds name = false) :
    types.holds name = false := by
  have hkept : ∀ (words : List String) {types : Scope}, types.holds name = true →
      (words.foldl Scope.reserve types).holds name = true := by
    intro words
    induction words with
    | nil => exact id
    | cons word words ih => exact fun h => ih (Scope.holds_reserve.mpr (Or.inr h))
  rw [← Bool.not_eq_true] at h ⊢
  exact fun hheld => h (hkept preludeTypes hheld)

/-- **No type name is given out twice**, and none that was in use. -/
theorem planAll_fresh : ∀ (roots : List Section) (types : Scope),
    ((Module.planAll options types roots).flatMap Module.typeNames).Nodup ∧
      ∀ name ∈ (Module.planAll options types roots).flatMap Module.typeNames, types.holds name = false
  | [], _ => ⟨List.nodup_nil, fun _ h => by cases h⟩
  | root :: roots, types => by
    obtain ⟨hnodup, hfresh⟩ := planAll_fresh roots (Module.plan options types root).2
    have hgrows := plan_grows options types root
    rw [Module.planAll, List.flatMap_cons]
    constructor
    · refine List.nodup_append.mpr ⟨hgrows.nodup, hnodup, ?_⟩
      rintro name hmem _ hmem' rfl
      have hheld := (hgrows.holds name).mpr (Or.inl hmem)
      rw [hfresh name hmem'] at hheld
      cases hheld
    · intro name hmem
      refine holds_of_reservePrelude ?_
      rcases List.mem_append.mp hmem with hmem | hmem
      · exact hgrows.fresh name hmem
      · exact hgrows.holds_eq_false (hfresh name hmem)

/-- The names of a second document are numbered where the first one has them. -/
example : (Module.planAll {} (.empty "") [Section.hostile, Section.hostile]).map Module.typeNames =
    [["ConfigProvider", "AppSettings", "_1Settings"], ["ConfigProvider2", "AppSettings2", "_1Settings2"]] := by rfl

/-- No name in the modules ends a line, where the identifiers are well-formed. -/
theorem planAll_names : ∀ {roots : List Section} {types : Scope}, IsNameText types.separator →
    (∀ root ∈ roots, root.HasWellFormedNames) → ∀ m ∈ Module.planAll options types roots, m.HasNameTexts
  | [], _, _, _ => fun _ h => by cases h
  | root :: roots, types, htypes, hroots => by
    obtain ⟨hroot, hrest⟩ := List.forall_mem_cons.mp hroots
    refine List.forall_mem_cons.mpr ⟨plan_names options htypes hroot, planAll_names ?_ hrest⟩
    rw [(plan_grows options types root).separator]
    exact htypes

/-- The lines of modules declare the types of the modules. -/
theorem declaredTypes_modules {modules : List Module} (h : ∀ m ∈ modules, m.HasNameTexts) :
    declaredTypes (renderLines (modules.flatMap Module.lines)) = modules.flatMap Module.typeNames := by
  rw [declaredTypes_renderLines (allLack_flatMap fun m hmem => (h m hmem).allLack_lines), declaredNames,
    List.filterMap_flatMap]
  exact List.flatMap_congr fun m hmem => (h m hmem).declaredNames_lines

end Modules

/-- Modules are those of documents that are written in turn, with this text: each shows its document, over a trait of
its own; no two types have the same name, whether in one module or in two; and the text declares just these types. The
first module is that of its document on its own. -/
structure WrittenInTurn (options : Options) (roots : List Section) (modules : List Module) (text : String) : Prop where
  shows : List.Forall₂ (Module.Shows options) roots modules
  lines : text = renderLines (modules.flatMap Module.lines)
  first : roots.head?.map (source options) = modules.head?.map Module.text
  distinct : (modules.flatMap Module.typeNames).Nodup
  declares : (∀ root ∈ roots, root.HasWellFormedNames) → declaredTypes text = modules.flatMap Module.typeNames

theorem writtenInTurn (options : Options) (roots : List Section) :
    WrittenInTurn options roots (Module.planAll options (.empty "") roots)
      (Writer.start.writeAll options roots).text := by
  have htext : (Writer.start.writeAll options roots).text =
      renderLines ((Module.planAll options (.empty "") roots).flatMap Module.lines) :=
    (Writer.text_eq roots .start).trans String.empty_append
  refine ⟨forall₂_shows roots _, htext, ?_, (planAll_fresh roots _).1, fun hroots => ?_⟩
  · cases roots with
    | nil => rfl
    | cons root roots => exact congrArg some String.empty_append
  · rw [htext]
    exact declaredTypes_modules (planAll_names (fun _ h => by cases h) hroots)

end Structs

/-! ## Both languages -/

namespace Writer

/-- The writer behind the sections of documents. -/
def writeAll (options : Options) (roots : List Section) (writer : Writer) : Writer :=
  roots.foldl (fun writer root => writer.write options root) writer

variable (options : Options)

theorem writeAll_append (roots more : List Section) (writer : Writer) :
    writer.writeAll options (roots ++ more) = (writer.writeAll options roots).writeAll options more :=
  List.foldl_append

theorem writeAll_structs : ∀ (roots : List Section) (writer : Structs.Writer),
    (structs writer).writeAll options roots = structs (writer.writeAll options roots)
  | [], _ => rfl
  | root :: roots, writer => writeAll_structs roots (writer.write options root)

theorem writeAll_classes : ∀ (roots : List Section) (text : String),
    ((classes text).writeAll options roots).text = text ++ String.join (roots.map (Classes.source options))
  | [], text => String.append_empty.symm
  | root :: roots, text => by
    rw [List.map_cons, String.join_cons, ← String.append_assoc]
    exact writeAll_classes roots (text ++ Classes.source options root)

/-- Whatever is written behind, what is written stays in front. -/
theorem exists_text_writeAll (writer : Writer) (roots : List Section) :
    ∃ behind, (writer.writeAll options roots).text = writer.text ++ behind := by
  cases writer with
  | structs writer =>
    rw [writeAll_structs]
    exact ⟨_, Structs.Writer.text_eq roots writer⟩
  | classes text => exact ⟨_, writeAll_classes options roots text⟩

/-- **Documents that are written in turn.** The text of classes is that of the documents on their own, one behind the
other. The text of structs grows by modules whose types have names of their own. -/
theorem writeAll_inTurn (roots : List Section) :
    ((start .csharp).writeAll options roots).text =
        String.join (roots.map fun root => ((start .csharp).write options root).text) ∧
      (∀ more, ((start .rust).writeAll options roots).text.toList <+:
        ((start .rust).writeAll options (roots ++ more)).text.toList) ∧
      ∃ modules, Structs.WrittenInTurn options roots modules ((start .rust).writeAll options roots).text := by
  refine ⟨?_, fun more => ?_, ?_⟩
  · have halone : ∀ root, ((start .csharp).write options root).text = Classes.source options root := fun root =>
      String.empty_append
    simp only [halone]
    exact (writeAll_classes options roots "").trans String.empty_append
  · obtain ⟨behind, hbehind⟩ := exists_text_writeAll options ((start .rust).writeAll options roots) more
    rw [writeAll_append, hbehind, String.toList_append]
    exact List.prefix_append _ _
  · rw [start, writeAll_structs]
    exact ⟨_, Structs.writtenInTurn options roots⟩

end Writer

end TypedSettings
