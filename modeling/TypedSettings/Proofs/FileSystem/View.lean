import Mathlib.Data.List.Basic
import Mathlib.Tactic.SplitIfs
import TypedSettings.FileSystem
import TypedSettings.Proofs.Except

/-!
# What stands where in a file tree

A tree is seen as a function from places to what stands there: nothing, a file with its bytes, or a directory
(`FileSystem.held?`).

* An entry without entries of its own that is put in a directory changes this function at its place only (`held?_put`).
* A path is followed part by part (`follow_eq_foldlM`), and what a part leads to depends on this function alone
  (`step_eq_ok_iff`).
-/

namespace TypedSettings

/-- What stands at a place of a tree, without what is in it. -/
inductive Held where
  | file (bytes : ByteArray)
  | directory

namespace Entry

/-- An entry without what is in it. -/
def held : Entry → Held
  | .file bytes => .file bytes
  | .directory _ => .directory

/-- An entry that nothing is in: a file or an empty directory. -/
def IsLeaf (entry : Entry) : Prop := ∀ name names, entry.at? (name :: names) = none

theorem isLeaf_file (bytes : ByteArray) : (file bytes).IsLeaf := fun _ _ => rfl

theorem isLeaf_directory_nil : (directory []).IsLeaf := fun _ _ => rfl

theorem at?_nil (entry : Entry) : entry.at? [] = some entry := by
  cases entry <;> rfl

theorem at?_directory (entries : List (String × Entry)) (name : String) (names : List String) :
    (directory entries).at? (name :: names) = (entries.lookup name).bind (·.at? names) := by
  rw [at?]
  cases entries.lookup name <;> rfl

theorem put_nil (entry new : Entry) : entry.put [] new = new := by
  cases entry <;> rfl

theorem at?_append : ∀ (names more : List String) (entry : Entry),
    entry.at? (names ++ more) = (entry.at? names).bind (·.at? more)
  | [], more, entry => by rw [List.nil_append, at?_nil]; rfl
  | _ :: _, _, .file _ => rfl
  | name :: names, more, .directory entries => by
    rw [List.cons_append, at?_directory, at?_directory]
    cases entries.lookup name with
    | none => rfl
    | some entry => exact at?_append names more entry

/-- Only below a directory there is anything. -/
theorem at?_below {entry : Entry} {names : List String} (h : (entry.at? names).map held ≠ some .directory)
    (name : String) (more : List String) : entry.at? (names ++ name :: more) = none := by
  rw [at?_append]
  cases hentry : entry.at? names with
  | none => rfl
  | some found =>
    cases found with
    | file bytes => rfl
    | directory entries => exact absurd (by rw [hentry]; rfl) h

theorem lookup_cons (first : String) (old : Entry) (entries : List (String × Entry)) (other : String) :
    ((first, old) :: entries).lookup other = if other = first then some old else entries.lookup other := by
  rw [List.lookup_cons]
  by_cases h : other = first
  · rw [beq_iff_eq.mpr h, if_pos h]
  · rw [beq_eq_false_iff_ne.mpr h, if_neg h]

/-- A new entry of a directory is found under its name, and every other one as before. -/
theorem lookup_place (name : String) (entry : Entry) (other : String) : ∀ entries : List (String × Entry),
    (place name entry entries).lookup other = if other = name then some entry else entries.lookup other
  | [] => lookup_cons name entry [] other
  | (first, old) :: entries => by
    have ih := lookup_place name entry other entries
    rw [place]
    by_cases hfirst : name = first
    · rw [if_pos hfirst, lookup_cons, lookup_cons, ← hfirst]
      split_ifs <;> rfl
    · rw [if_neg hfirst]
      by_cases hless : name < first
      · rw [if_pos hless, lookup_cons]
      · rw [if_neg hless, lookup_cons, lookup_cons, ih]
        split_ifs with hold hname
        · exact absurd (hname.symm.trans hold) hfirst
        · rfl
        · rfl
        · rfl

theorem at?_put_directory (entries : List (String × Entry)) (name : String) (names : List String) (new : Entry)
    (first : String) (rest : List String) :
    ((directory entries).put (name :: names) new).at? (first :: rest) =
      if first = name then (((entries.lookup name).getD (directory [])).put names new).at? rest
      else (directory entries).at? (first :: rest) := by
  rw [put, at?_directory, lookup_place, at?_directory]
  split_ifs <;> rfl

/-- An entry without entries of its own, put into a directory in place of anything but a directory, stands there, and
elsewhere there is what was there before. -/
theorem held_at?_put {new : Entry} (hnew : new.IsLeaf) {name : String} : ∀ {above : List String} {root : Entry}
    {entries : List (String × Entry)}, root.at? above = some (.directory entries) →
    (root.at? (above ++ [name])).map held ≠ some .directory → ∀ place,
    ((root.put (above ++ [name]) new).at? place).map held =
      if place = above ++ [name] then some new.held else (root.at? place).map held
  | [], .directory entries, _, _, hold, [] => rfl
  | [], .directory entries, _, _, hold, first :: rest => by
    rw [List.nil_append] at hold ⊢
    rw [at?_put_directory, put_nil]
    by_cases hfirst : first = name
    · rw [if_pos hfirst, hfirst]
      cases rest with
      | nil => rw [if_pos rfl, at?_nil]; rfl
      | cons next rest =>
        have hbelow : (directory entries).at? (name :: next :: rest) = none := at?_below hold next rest
        rw [hnew, hbelow, if_neg (by simp)]
    · rw [if_neg hfirst, if_neg fun h => hfirst (List.cons.inj h).1]
  | part :: above, .directory entries, _, _, hold, [] => rfl
  | part :: above, .directory entries, _, habove, hold, first :: rest => by
    rw [at?_directory] at habove
    obtain ⟨inner, hinner, habove⟩ := Option.bind_eq_some_iff.mp habove
    rw [List.cons_append, at?_directory, hinner] at hold
    rw [List.cons_append, at?_put_directory, hinner]
    by_cases hfirst : first = part
    · have ih := held_at?_put hnew habove hold rest
      rw [if_pos hfirst, hfirst, at?_directory, hinner]
      simp only [Option.getD_some, List.cons.injEq, true_and]
      exact ih
    · rw [if_neg hfirst, if_neg fun h => hfirst (List.cons.inj h).1]

end Entry

namespace FileSystem

/-- What stands at a place. -/
def held? (fs : FileSystem) (place : List String) : Option Held := (fs.root.at? place).map Entry.held

section Held

variable {fs : FileSystem} {place : List String}

theorem held?_eq_directory_iff :
    fs.held? place = some .directory ↔ ∃ entries, fs.root.at? place = some (.directory entries) := by
  unfold held?
  cases fs.root.at? place with
  | none => simp
  | some entry => cases entry <;> simp [Entry.held]

theorem held?_eq_file_iff {bytes : ByteArray} :
    fs.held? place = some (.file bytes) ↔ fs.root.at? place = some (.file bytes) := by
  unfold held?
  cases fs.root.at? place with
  | none => simp
  | some entry => cases entry <;> simp [Entry.held]

/-- What the entries of a directory have under a name is what stands at its place. -/
theorem lookup_eq_at? {entries : List (String × Entry)} (h : fs.root.at? place = some (.directory entries))
    (name : String) : entries.lookup name = fs.root.at? (place ++ [name]) := by
  rw [Entry.at?_append, h, Option.bind_some, Entry.at?_directory]
  cases entries.lookup name with
  | none => rfl
  | some entry => exact (Entry.at?_nil entry).symm

theorem any_isDirectory_iff {entries : List (String × Entry)} (h : fs.root.at? place = some (.directory entries))
    (name : String) :
    (entries.lookup name).any Entry.isDirectory = true ↔ fs.held? (place ++ [name]) = some .directory := by
  rw [lookup_eq_at? h, held?]
  cases fs.root.at? (place ++ [name]) with
  | none => exact ⟨nofun, nofun⟩
  | some entry => cases entry <;> simp [Entry.isDirectory, Entry.held]

end Held

/-! ## Following a path -/

/-- A part of a path that names an entry of a directory. -/
structure IsName (part : String) : Prop where
  not_idle : Path.isIdle part = false
  not_up : part ≠ ".."
  short : part.utf8ByteSize ≤ nameLimit

/-- What one part of a path leads to from a place. -/
def step (fs : FileSystem) (place : List String) (part : String) : Except FileError (List String) :=
  match fs.held? place with
  | none => .error .missing
  | some (.file _) => .error .notDirectory
  | some .directory =>
    if Path.isIdle part then .ok place
    else if part == ".." then .ok place.dropLast
    else if nameLimit < part.utf8ByteSize then .error .longName
    else if (fs.held? (place ++ [part])).isNone then .error .missing
    else .ok (place ++ [part])

theorem follow_eq_foldlM (fs : FileSystem) : ∀ (parts place : List String),
    fs.follow place parts = parts.foldlM fs.step place
  | [], place => by rw [follow]; rfl
  | part :: parts, place => by
    rw [follow, List.foldlM_cons, step, held?]
    cases hentry : fs.root.at? place with
    | none => rfl
    | some entry =>
      cases entry with
      | file bytes => rfl
      | directory entries =>
        have hlookup : (entries.lookup part).isNone = (fs.held? (place ++ [part])).isNone := by
          rw [lookup_eq_at? hentry, held?, Option.isNone_map]
        simp only [Option.map_some, Entry.held, hlookup, follow_eq_foldlM fs parts]
        split_ifs <;> rfl

theorem follow_append (fs : FileSystem) (place parts more : List String) :
    fs.follow place (parts ++ more) = fs.follow place parts >>= (fs.follow · more) := by
  simp only [follow_eq_foldlM, List.foldlM_append]

/-- What a part leads to, if it leads anywhere. -/
inductive Leads (fs : FileSystem) (place : List String) (part : String) : List String → Prop
  | here : Path.isIdle part = true → Leads fs place part place
  | up : part = ".." → Leads fs place part place.dropLast
  | down {held : Held} : IsName part → fs.held? (place ++ [part]) = some held → Leads fs place part (place ++ [part])

theorem step_eq_ok_iff {fs : FileSystem} {place next : List String} {part : String} :
    fs.step place part = .ok next ↔ fs.held? place = some .directory ∧ fs.Leads place part next := by
  constructor
  · intro h
    unfold step at h
    split at h
    · cases h
    · cases h
    · rename_i hplace
      refine ⟨hplace, ?_⟩
      split_ifs at h with hidle hup hlong hmissing
      · cases h
        exact .here hidle
      · cases h
        exact .up (beq_iff_eq.mp hup)
      · cases h
        rw [Bool.not_eq_true, Option.isNone_eq_false_iff, Option.isSome_iff_exists] at hmissing
        obtain ⟨held, hheld⟩ := hmissing
        exact .down ⟨eq_false_of_ne_true hidle, fun h => hup (beq_iff_eq.mpr h), Nat.le_of_not_lt hlong⟩ hheld
  · rintro ⟨hplace, hleads⟩
    rw [step, hplace]
    cases hleads with
    | here hidle => exact if_pos hidle
    | up hup =>
      subst hup
      rfl
    | down hname hheld =>
      have hup : ¬(part == "..") = true := fun h => hname.not_up (beq_iff_eq.mp h)
      simp only [hname.not_idle, Bool.false_eq_true, if_false, if_neg hup, if_neg (Nat.not_lt.mpr hname.short), hheld,
        Option.isNone_some]

/-- A path leads where its first part and then the others lead. -/
theorem follow_cons_eq_ok_iff {fs : FileSystem} {start target : List String} {part : String} {parts : List String} :
    fs.follow start (part :: parts) = .ok target ↔
      ∃ next, (fs.held? start = some .directory ∧ fs.Leads start part next) ∧ fs.follow next parts = .ok target := by
  simp only [follow_eq_foldlM, List.foldlM_cons, bind_eq_ok, step_eq_ok_iff]

theorem follow_append_eq_ok_iff {fs : FileSystem} {start target : List String} {parts more : List String} :
    fs.follow start (parts ++ more) = .ok target ↔
      ∃ place, fs.follow start parts = .ok place ∧ fs.follow place more = .ok target := by
  rw [follow_append, bind_eq_ok]

theorem follow_singleton_eq_ok_iff {fs : FileSystem} {start target : List String} {part : String} :
    fs.follow start [part] = .ok target ↔ fs.held? start = some .directory ∧ fs.Leads start part target := by
  rw [follow_cons_eq_ok_iff]
  constructor
  · rintro ⟨next, hstep, hnext⟩
    rwa [← Except.ok.inj hnext]
  · exact fun hstep => ⟨target, hstep, rfl⟩

end FileSystem

end TypedSettings
