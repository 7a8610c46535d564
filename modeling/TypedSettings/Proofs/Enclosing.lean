import TypedSettings.Proofs.Classes.Declarations
import TypedSettings.Proofs.Structs.SnakeCase
import TypedSettings.Source

/-!
# The module or namespace around the types

The option for the module or namespace names what encloses the types, and nothing else: it takes no part in the planning
of names. Whatever text it is, the name made of it is legal in the language (`isModuleName_moduleName`,
`isNamespace_namespaceName`), and the source text shows it on one line while all other lines stay as they are
(`source_enclosing`).
-/

namespace TypedSettings

open Text

/-! ## Legal names -/

namespace Structs

/-- A name that a module can have: an identifier that is no word of the language, a word written as a raw name, or one
that has no raw name with an underscore behind it. -/
inductive IsModuleName : String → Prop where
  | plain {name : String} : Identifier.isWellFormed name = true → name ∉ keywords → name ∉ strictKeywords →
    IsModuleName name
  | raw {word : String} : word ∈ keywords → IsModuleName ("r#" ++ word)
  | marked {word : String} : word ∈ strictKeywords → IsModuleName (word ++ "_")

theorem isModuleName_escaped {name : String} (h : Identifier.isWellFormed name = true) :
    IsModuleName (escaped name) := by
  unfold escaped
  split_ifs with hstrict hkeyword
  · exact .marked (List.contains_iff_mem.mp hstrict)
  · exact .raw (List.contains_iff_mem.mp hkeyword)
  · exact .plain h (fun hmem => hkeyword (List.contains_iff_mem.mpr hmem))
      fun hmem => hstrict (List.contains_iff_mem.mpr hmem)

theorem isModuleName_moduleName (options : Options) : IsModuleName (moduleName options) :=
  isModuleName_escaped (isWellFormed_snakeCase (Identifier.isWellFormed_ofKey options.enclosing))

end Structs

namespace Classes

/-- A name that can stand in a namespace: an identifier that is no reserved word, or a reserved word behind an at
sign. -/
inductive IsPart : String → Prop where
  | plain {name : String} : Identifier.isWellFormed name = true → name ∉ reservedWords → IsPart name
  | verbatim {word : String} : Identifier.isWellFormed word = true → word ∈ reservedWords → IsPart ("@" ++ word)

/-- A namespace: names with dots between them, at least one. -/
def IsNamespace (space : String) : Prop :=
  ∃ names : List String, names ≠ [] ∧ (∀ name ∈ names, IsPart name) ∧ space = String.intercalate "." names

theorem isPart_verbatim {name : String} (h : Identifier.isWellFormed name = true) : IsPart (verbatim name) := by
  unfold verbatim
  split_ifs with hreserved
  · exact .verbatim h (List.contains_iff_mem.mp hreserved)
  · exact .plain h fun hmem => hreserved (List.contains_iff_mem.mpr hmem)

theorem isNamespace_namespaceName (wanted : String) : IsNamespace (namespaceName wanted) := by
  unfold namespaceName
  split
  · refine ⟨[({} : Options).enclosing], List.cons_ne_nil _ _, ?_, String.intercalate_singleton.symm⟩
    exact List.forall_mem_singleton.mpr (.plain (by decide) (by decide))
  · rename_i parts hparts
    refine ⟨_, ?_, List.forall_mem_map.mpr fun part _ => ?_, rfl⟩
    · exact fun hnil => hparts (List.map_eq_nil_iff.mp hnil)
    · exact isPart_verbatim (Identifier.isWellFormed_ofKey _)

end Classes

/-- Whether a name can stand around the types of a target. -/
def Target.Admits : Target → String → Prop
  | .rust => Structs.IsModuleName
  | .csharp => Classes.IsNamespace

/-- The line that puts the types into the module or namespace of a name. -/
def Target.opening : Target → String → String
  | .rust, name => "pub mod " ++ name ++ " \x7b"
  | .csharp, name => "namespace " ++ name ++ ";"

/-! ## The one line -/

/-- The text of lines, one of which stands at the margin. -/
theorem renderLines_around (front behind : List Line) {text : String} (h : text ≠ "") :
    renderLines (front ++ ⟨0, text⟩ :: behind) = renderLines front ++ (text ++ "\n") ++ renderLines behind := by
  have hline : (⟨0, text⟩ : Line).render = text ++ "\n" := by
    rw [Line.render, if_neg (by rwa [String.isEmpty_iff])]
    exact congrArg (· ++ "\n") String.empty_append
  rw [renderLines_append, renderLines_cons, hline, ← String.append_assoc]

/-- Another name for a module leaves all else as it is planned. -/
theorem Structs.plan_enclosing (options : Options) (wanted : String) (types : Scope) (root : Section) :
    (Module.plan { options with enclosing := wanted } types root).1 =
      { (Module.plan options types root).1 with name := moduleName { options with enclosing := wanted } } := by
  rw [Module.plan, Module.plan]

/-- The name of a module stands in the line that opens it, and in no other line. -/
theorem Structs.exists_lines_source (options : Options) (root : Section) : ∃ behind, ∀ wanted,
    source { options with enclosing := wanted } root =
      renderLines ([header, blank] ++ openingLine (moduleName { options with enclosing := wanted }) :: behind) := by
  obtain ⟨m, hm⟩ : ∃ m, m = (Module.plan options (.empty "") root).1 := ⟨_, rfl⟩
  refine ⟨⟨1, "#![allow(dead_code, non_camel_case_types, clippy::all)]"⟩ :: blank ::
    (traitLines m.provider ++ m.structs.flatMap (Struct.lines m.provider) ++ [⟨0, "\x7d"⟩]), fun wanted => ?_⟩
  have htext : source { options with enclosing := wanted } root =
      (Module.plan { options with enclosing := wanted } (.empty "") root).1.text := String.empty_append
  rw [htext, plan_enclosing, ← hm, Module.text, Module.lines]
  simp only [List.append_assoc, List.cons_append, List.nil_append]

/-- The namespace stands in its line, and in no other line. -/
theorem Classes.exists_lines_source (options : Options) (root : Section) : ∃ behind, ∀ wanted,
    source { options with enclosing := wanted } root =
      renderLines (headerLines ++ namespaceLine (namespaceName wanted) :: behind) :=
  ⟨blank :: classLines 0 (Class.plan options root), fun _ => congrArg renderLines (List.append_assoc _ _ _)⟩

theorem Target.opening_ne_empty (target : Target) (name : String) : target.opening name ≠ "" := by
  intro h
  cases target with
  | rust => exact absurd ((String.append_eq_empty_iff.mp h).2) (by decide)
  | csharp => exact absurd ((String.append_eq_empty_iff.mp h).2) (by decide)

/-- **The module or namespace is all that its option decides.** Whatever the option is, the name made of it is legal, it
stands on one line, and the texts in front of this line and behind it are the same for every other option. -/
theorem source_enclosing (options : Options) (root : Section) : ∃ front behind : List Line, ∀ wanted, ∃ name,
    options.target.Admits name ∧ Lacks isLineFeed name ∧
      root.source { options with enclosing := wanted } =
        renderLines front ++ (options.target.opening name ++ "\n") ++ renderLines behind := by
  obtain ⟨enclosing, rootType, target, onCollision, onNull, trait⟩ := options
  cases target with
  | rust =>
    obtain ⟨behind, hsource⟩ :=
      Structs.exists_lines_source ⟨enclosing, rootType, .rust, onCollision, onNull, trait⟩ root
    refine ⟨[Structs.header, blank], behind, fun wanted =>
      ⟨Structs.moduleName { enclosing := wanted }, Structs.isModuleName_moduleName _, ?_, ?_⟩⟩
    · exact Structs.lacks_escaped (Structs.isNameText_snakeCase (isNameText_ofKey wanted))
    · exact (hsource wanted).trans (renderLines_around _ _ (Target.opening_ne_empty .rust _))
  | csharp =>
    obtain ⟨behind, hsource⟩ :=
      Classes.exists_lines_source ⟨enclosing, rootType, .csharp, onCollision, onNull, trait⟩ root
    refine ⟨Classes.headerLines, behind, fun wanted => ⟨_, Classes.isNamespace_namespaceName wanted, ?_, ?_⟩⟩
    · exact (Classes.lacks_namespaceName wanted).mono fun c hc => by rw [eq_of_beq hc]; rfl
    · rw [Section.source]
      exact (String.empty_append.trans (hsource wanted)).trans
        (renderLines_around _ _ (Target.opening_ne_empty .csharp _))

end TypedSettings
