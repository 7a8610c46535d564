import TypedSettings.CommandLine.Documents
import TypedSettings.Proofs.Except
import TypedSettings.Proofs.Path
import TypedSettings.Proofs.SideBySide

/-!
# What inputs stand for

An input stands for a group of paths (`StandsFor`): a pattern for all that it finds, a directory for the settings file
in it, any other input for itself. The paths of a run are these groups in the order of the inputs, and no group is empty
(`allPaths_groups`).

So no directory that is named is among the paths, but a directory that a pattern finds is: it stands for itself, not for
the settings file in it.
-/

namespace TypedSettings.CommandLine

open Wildcard (isPattern Pattern)

variable {fs : FileSystem} {input : String} {inputs : List String} {path : Path} {paths : List Path}

/-- An input is the path of a directory. -/
def NamesDirectory (fs : FileSystem) (input : String) : Prop :=
  isPattern input = false ∧ fs.isDirectory ⟨input⟩ = true

/-- An input is a pattern that finds a path. -/
def Finds (fs : FileSystem) (input : String) (path : Path) : Prop :=
  isPattern input = true ∧ ∃ pattern, Pattern.ofText? input = .ok pattern ∧ path ∈ pattern.search fs

/-- The paths that an input stands for. -/
inductive StandsFor (fs : FileSystem) (input : String) : List Path → Prop
  | pattern {pattern : Pattern} : isPattern input = true → Pattern.ofText? input = .ok pattern →
    pattern.search fs ≠ [] → StandsFor fs input (pattern.search fs)
  | directory : NamesDirectory fs input → StandsFor fs input [Path.child ⟨input⟩ settingsFile]
  | path : isPattern input = false → fs.isDirectory ⟨input⟩ = false → StandsFor fs input [⟨input⟩]

theorem inputPaths_eq_ok_iff : inputPaths fs input = .ok paths ↔ StandsFor fs input paths := by
  unfold inputPaths
  constructor
  · intro h
    split at h
    case isTrue hpattern =>
      split at h
      case h_1 => cases h
      case h_2 pattern htext =>
        dsimp only at h
        split at h
        case isTrue => cases h
        case isFalse hfound =>
          cases h
          exact .pattern hpattern htext fun hnone => hfound (List.isEmpty_iff.mpr hnone)
    case isFalse hpattern =>
      rw [Bool.not_eq_true] at hpattern
      split at h
      case isTrue hdirectory =>
        cases h
        exact .directory ⟨hpattern, hdirectory⟩
      case isFalse hdirectory =>
        cases h
        exact .path hpattern (Bool.not_eq_true _ ▸ hdirectory)
  · intro h
    cases h with
    | pattern hpattern htext hfound =>
      rw [if_pos hpattern, htext]
      exact if_neg fun hempty => hfound (List.isEmpty_iff.mp hempty)
    | directory hnames => rw [if_neg (by simp [hnames.1]), if_pos hnames.2]
    | path hpattern hdirectory => rw [if_neg (by simp [hpattern]), if_neg (by simp [hdirectory])]

theorem StandsFor.ne_nil (h : StandsFor fs input paths) : paths ≠ [] := by
  cases h with
  | pattern _ _ hfound => exact hfound
  | directory _ => exact List.cons_ne_nil _ _
  | path _ _ => exact List.cons_ne_nil _ _

/-- The directories among the paths of an input are what stands under the name of the settings file in a named
directory, and what a pattern finds. -/
theorem StandsFor.mem_iff (h : StandsFor fs input paths) (hdirectory : fs.isDirectory path = true) :
    path ∈ paths ↔ NamesDirectory fs input ∧ path = Path.child ⟨input⟩ settingsFile ∨ Finds fs input path := by
  cases h with
  | pattern hpattern htext _ =>
    constructor
    · exact fun hmem => Or.inr ⟨hpattern, _, htext, hmem⟩
    · rintro (⟨hnames, -⟩ | ⟨-, _, htext', hmem⟩)
      · exact absurd hpattern (by simp [hnames.1])
      · cases htext.symm.trans htext'
        exact hmem
  | directory hnames =>
    rw [List.mem_singleton]
    constructor
    · exact fun heq => Or.inl ⟨hnames, heq⟩
    · rintro (⟨-, heq⟩ | ⟨hpattern, -⟩)
      · exact heq
      · exact absurd hpattern (by simp [hnames.1])
  | path hplain hfile =>
    constructor
    · intro hmem
      rw [List.mem_singleton.mp hmem] at hdirectory
      exact absurd hdirectory (by simp [hfile])
    · rintro (⟨hnames, -⟩ | ⟨hpattern, -⟩)
      · exact absurd hnames.2 (by simp [hfile])
      · exact absurd hpattern (by simp [hplain])

theorem allPaths_eq_ok_iff : allPaths fs inputs = .ok paths ↔
    ∃ groups, List.Forall₂ (StandsFor fs) inputs groups ∧ paths = groups.flatten := by
  have hgroups {groups : List (List Path)} : inputs.mapM (inputPaths fs) = .ok groups ↔
      List.Forall₂ (StandsFor fs) inputs groups := by
    rw [mapM_eq_ok_iff]
    simp only [inputPaths_eq_ok_iff]
  rw [allPaths, bind_eq_ok]
  constructor
  · rintro ⟨groups, h, heq⟩
    exact ⟨groups, hgroups.mp h, (Except.ok.inj heq).symm⟩
  · rintro ⟨groups, h, rfl⟩
    exact ⟨groups, hgroups.mpr h, rfl⟩

/-- **The paths of a run are those of its inputs, input by input, and every input has one.** The directories among them
are those that stand under the name of the settings file in a named directory, and those that a pattern finds. -/
theorem allPaths_groups (h : allPaths fs inputs = .ok paths) :
    (∃ groups, List.Forall₂ (StandsFor fs) inputs groups ∧ paths = groups.flatten ∧ ∀ group ∈ groups, group ≠ []) ∧
    ∀ path, fs.isDirectory path = true → (path ∈ paths ↔ ∃ input ∈ inputs,
      NamesDirectory fs input ∧ path = Path.child ⟨input⟩ settingsFile ∨ Finds fs input path) := by
  obtain ⟨groups, hgroups, rfl⟩ := allPaths_eq_ok_iff.mp h
  refine ⟨⟨groups, hgroups, rfl, fun group hmem => ?_⟩, fun path hdirectory => ?_⟩
  · obtain ⟨input, -, hgroup⟩ := exists_mem_of_forall₂ hgroups.flip group hmem
    exact hgroup.ne_nil
  · rw [List.mem_flatten]
    constructor
    · rintro ⟨group, hmem, hpath⟩
      obtain ⟨input, hinput, hgroup⟩ := exists_mem_of_forall₂ hgroups.flip group hmem
      exact ⟨input, hinput, (hgroup.mem_iff hdirectory).mp hpath⟩
    · rintro ⟨input, hinput, hpath⟩
      obtain ⟨group, hmem, hgroup⟩ := exists_mem_of_forall₂ hgroups input hinput
      exact ⟨group, hmem, (hgroup.mem_iff hdirectory).mpr hpath⟩

/-- A directory with a settings file. -/
def configured : FileSystem :=
  ⟨.directory [("cfg", .directory [("appsettings.json", .file "\x7b\x7d".toUTF8)])], []⟩

/-- The directory by its name, and by a pattern that finds it. -/
theorem allPaths_groups_configured :
    allPaths configured ["cfg", "c*"] = .ok [⟨"cfg/appsettings.json"⟩, ⟨"cfg"⟩] ∧
    (∃ groups, List.Forall₂ (StandsFor configured) ["cfg", "c*"] groups ∧
      [⟨"cfg/appsettings.json"⟩, ⟨"cfg"⟩] = groups.flatten ∧ ∀ group ∈ groups, group ≠ []) ∧
    ∃ input ∈ ["cfg", "c*"], NamesDirectory configured input ∧ ⟨"cfg"⟩ = Path.child ⟨input⟩ settingsFile ∨
      Finds configured input ⟨"cfg"⟩ := by
  have h : allPaths configured ["cfg", "c*"] = .ok [⟨"cfg/appsettings.json"⟩, ⟨"cfg"⟩] := by decide +kernel
  obtain ⟨hgroups, hdirectories⟩ := allPaths_groups h
  exact ⟨h, hgroups, (hdirectories ⟨"cfg"⟩ (by decide +kernel)).mp (by decide)⟩

/-- A pattern that finds a directory stands for the directory itself, which is no settings file of a directory. -/
theorem allPaths_found : allPaths configured ["c*"] = .ok [⟨"cfg"⟩] ∧ configured.isDirectory ⟨"cfg"⟩ = true ∧
    ∀ folder : Path, folder.child settingsFile ≠ ⟨"cfg"⟩ := by
  refine ⟨by decide +kernel, by decide +kernel, fun folder heq => ?_⟩
  have hlength := congrArg (fun path : Path => path.text.toList.length) heq
  simp only [Path.toList_child, List.length_append] at hlength
  have hname : settingsFile.toList.length = 16 := by decide
  have hfolder : "cfg".toList.length = 3 := by decide
  omega

end TypedSettings.CommandLine
