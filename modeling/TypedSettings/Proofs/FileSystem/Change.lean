import Mathlib.Data.List.TakeWhile
import TypedSettings.Proofs.FileSystem.View

/-!
# How a file tree changes

`Gains before files after` says what a program leaves that only adds to a tree: the given files stand at their places
with their bytes, there are some new directories, and everything else is as it was. Such a tree leads every path where
it led before (`Extends.follow`).

* Where directories are made, nothing but directories is gained, whether they can all be made or not
  (`makeDirectories_gains`); once they are made, making them again changes nothing (`makeDirectories_again`).
* A file is written where a path leads, if it leads to a place for one (`write_eq_ok_iff`), and it alone is gained
  (`CanWrite.writes`).
-/

namespace TypedSettings.FileSystem

/-- What stands in one tree stands in another one, directories as directories. -/
structure Extends (before after : FileSystem) : Prop where
  home : after.home = before.home
  directory : ∀ {place}, before.held? place = some .directory → after.held? place = some .directory
  isSome : ∀ {place}, (before.held? place).isSome → (after.held? place).isSome

/-- One tree is another one with the given files, which replace files at most, and with some new directories. -/
structure Gains (before : FileSystem) (files : List (List String × ByteArray)) (after : FileSystem) : Prop where
  home : after.home = before.home
  written : ∀ file ∈ files, after.held? file.1 = some (.file file.2)
  noDirectory : ∀ file ∈ files, before.held? file.1 ≠ some .directory
  kept : ∀ place ∉ files.map Prod.fst,
    after.held? place = before.held? place ∨ before.held? place = none ∧ after.held? place = some .directory

/-- One tree is another one with the given files, and without new directories. -/
structure Writes (before : FileSystem) (files : List (List String × ByteArray)) (after : FileSystem) : Prop where
  home : after.home = before.home
  written : ∀ file ∈ files, after.held? file.1 = some (.file file.2)
  noDirectory : ∀ file ∈ files, before.held? file.1 ≠ some .directory
  kept : ∀ place ∉ files.map Prod.fst, after.held? place = before.held? place

section Relations

variable {first second third : FileSystem} {files more : List (List String × ByteArray)}

theorem Leads.mono (h : Extends first second) {place next : List String} {part : String}
    (hleads : first.Leads place part next) : second.Leads place part next := by
  cases hleads with
  | here hidle => exact .here hidle
  | up hup => exact .up hup
  | down hname hheld =>
    obtain ⟨held, hheld⟩ := Option.isSome_iff_exists.mp (h.isSome (Option.isSome_of_mem hheld))
    exact .down hname hheld

/-- What a path leads to in one tree, it leads to in a tree with more in it. -/
theorem Extends.follow (h : Extends first second) {target : List String} : ∀ {parts start : List String},
    first.follow start parts = .ok target → second.follow start parts = .ok target
  | [], _, hfollow => hfollow
  | part :: parts, start, hfollow => by
    obtain ⟨next, ⟨hdirectory, hleads⟩, hfollow⟩ := follow_cons_eq_ok_iff.mp hfollow
    exact follow_cons_eq_ok_iff.mpr ⟨next, ⟨h.directory hdirectory, hleads.mono h⟩, h.follow hfollow⟩

theorem Extends.start_eq (h : Extends first second) (path : Path) : second.start path = first.start path := by
  rw [start, start, h.home]

theorem Gains.extends (h : Gains first files second) : Extends first second where
  home := h.home
  directory {place} hplace := by
    by_cases hmem : place ∈ files.map Prod.fst
    · obtain ⟨file, hfile, rfl⟩ := List.mem_map.mp hmem
      exact absurd hplace (h.noDirectory file hfile)
    · rcases h.kept place hmem with hkept | ⟨hnone, -⟩
      · rw [hkept, hplace]
      · rw [hplace] at hnone
        cases hnone
  isSome {place} hplace := by
    by_cases hmem : place ∈ files.map Prod.fst
    · obtain ⟨file, hfile, rfl⟩ := List.mem_map.mp hmem
      rw [h.written file hfile]
      rfl
    · rcases h.kept place hmem with hkept | ⟨-, hsome⟩
      · rw [hkept]
        exact hplace
      · rw [hsome]
        rfl

theorem Extends.refl (fs : FileSystem) : Extends fs fs := ⟨rfl, id, id⟩

theorem Extends.trans (h : Extends first second) (h' : Extends second third) : Extends first third :=
  ⟨h'.home.trans h.home, fun hplace => h'.directory (h.directory hplace), fun hplace => h'.isSome (h.isSome hplace)⟩

theorem Gains.refl (fs : FileSystem) : Gains fs [] fs :=
  ⟨rfl, List.forall_mem_nil _, List.forall_mem_nil _, fun _ _ => Or.inl rfl⟩

theorem Writes.gains (h : Writes first files second) : Gains first files second :=
  ⟨h.home, h.written, h.noDirectory, fun place hmem => Or.inl (h.kept place hmem)⟩

theorem Writes.refl (fs : FileSystem) : Writes fs [] fs :=
  ⟨rfl, List.forall_mem_nil _, List.forall_mem_nil _, fun _ _ => rfl⟩

/-- A file that stands in a tree stands in one that gains other files. -/
theorem Gains.held?_file (h : Gains first files second) {place : List String} {bytes : ByteArray}
    (hplace : first.held? place = some (.file bytes)) (hmem : place ∉ files.map Prod.fst) :
    second.held? place = some (.file bytes) := by
  rcases h.kept place hmem with hkept | ⟨hnone, -⟩
  · rw [hkept, hplace]
  · rw [hplace] at hnone
    cases hnone

/-- What is gained step by step is gained, if no file is written again. -/
theorem Gains.trans (h : Gains first files second) (h' : Gains second more third)
    (hdisjoint : ∀ file ∈ files, file.1 ∉ more.map Prod.fst) : Gains first (files ++ more) third where
  home := h'.home.trans h.home
  written := List.forall_mem_append.mpr
    ⟨fun file hmem => h'.held?_file (h.written file hmem) (hdisjoint file hmem), h'.written⟩
  noDirectory := List.forall_mem_append.mpr
    ⟨h.noDirectory, fun file hmem hplace => h'.noDirectory file hmem (h.extends.directory hplace)⟩
  kept place hmem := by
    rw [List.map_append, List.mem_append, not_or] at hmem
    rcases h.kept place hmem.1 with hkept | ⟨hnone, hsome⟩
    · rw [← hkept]
      exact h'.kept place hmem.2
    · exact Or.inr ⟨hnone, h'.extends.directory hsome⟩

theorem Writes.trans (h : Writes first files second) (h' : Writes second more third)
    (hdisjoint : ∀ file ∈ files, file.1 ∉ more.map Prod.fst) : Writes first (files ++ more) third := by
  have hgains := h.gains.trans h'.gains hdisjoint
  refine ⟨hgains.home, hgains.written, hgains.noDirectory, fun place hmem => ?_⟩
  rw [List.map_append, List.mem_append, not_or] at hmem
  rw [h'.kept place hmem.2, h.kept place hmem.1]

/-- Trees that have got the same files are the same. -/
theorem Writes.held?_eq (h : Writes first files second) (h' : Writes first more third)
    (hsame : ∀ file, file ∈ files ↔ file ∈ more) (place : List String) : second.held? place = third.held? place := by
  by_cases hmem : place ∈ files.map Prod.fst
  · obtain ⟨file, hfile, rfl⟩ := List.mem_map.mp hmem
    rw [h.written file hfile, h'.written file ((hsame file).mp hfile)]
  · have hmore : place ∉ more.map Prod.fst := by
      intro hmem'
      obtain ⟨file, hfile, rfl⟩ := List.mem_map.mp hmem'
      exact hmem (List.mem_map_of_mem ((hsame file).mpr hfile))
    rw [h.kept place hmem, h'.kept place hmore]

end Relations

/-! ## Putting an entry -/

section Put

variable {fs : FileSystem} {above : List String} {name : String}

theorem ne_directory_of_eq_none {place : List String} (h : fs.held? place = none) : fs.held? place ≠ some .directory :=
  ne_of_eq_of_ne h (Option.some_ne_none _).symm

/-- Where an entry without entries of its own is put into a directory, in place of anything but a directory, it stands
there, and all else is as before. -/
theorem held?_put {new : Entry} (hnew : new.IsLeaf) (habove : fs.held? above = some .directory)
    (hfree : fs.held? (above ++ [name]) ≠ some .directory) (place : List String) :
    FileSystem.held? { fs with root := fs.root.put (above ++ [name]) new } place =
      if place = above ++ [name] then some new.held else fs.held? place := by
  obtain ⟨entries, hentries⟩ := held?_eq_directory_iff.mp habove
  exact Entry.held_at?_put hnew hentries hfree place

theorem writes_put (habove : fs.held? above = some .directory) (hfree : fs.held? (above ++ [name]) ≠ some .directory)
    (bytes : ByteArray) :
    Writes fs [(above ++ [name], bytes)] { fs with root := fs.root.put (above ++ [name]) (.file bytes) } where
  home := rfl
  written := List.forall_mem_singleton.mpr <| by
    rw [held?_put (Entry.isLeaf_file bytes) habove hfree, if_pos rfl]
    rfl
  noDirectory := List.forall_mem_singleton.mpr hfree
  kept place hmem := by
    rw [held?_put (Entry.isLeaf_file bytes) habove hfree, if_neg (by simpa using hmem)]

theorem gains_put (habove : fs.held? above = some .directory) (hfree : fs.held? (above ++ [name]) = none) :
    Gains fs [] { fs with root := fs.root.put (above ++ [name]) (.directory []) } where
  home := rfl
  written := List.forall_mem_nil _
  noDirectory := List.forall_mem_nil _
  kept place _ := by
    have hput := held?_put Entry.isLeaf_directory_nil habove (ne_directory_of_eq_none hfree) place
    by_cases hplace : place = above ++ [name]
    · right
      rw [hput, if_pos hplace, hplace]
      exact ⟨hfree, rfl⟩
    · left
      rw [hput, if_neg hplace]

end Put

/-! ## The end of a path -/

/-- The last part that is not empty stands behind the others and in front of empty ones. -/
theorem dropWhile_reverse_eq_cons_iff {parts front : List String} {name : String} :
    parts.reverse.dropWhile (· == "") = name :: front ↔
      name ≠ "" ∧ ∃ blanks, (∀ blank ∈ blanks, blank = "") ∧ parts = front.reverse ++ name :: blanks := by
  constructor
  · intro h
    have hname := List.head?_dropWhile_not (· == "") parts.reverse
    have hparts : parts.reverse.takeWhile (· == "") ++ parts.reverse.dropWhile (· == "") = parts.reverse :=
      List.takeWhile_append_dropWhile
    rw [h] at hname hparts
    have hblanks : ∀ blank ∈ parts.reverse.takeWhile (· == ""), blank = "" := fun blank hblank =>
      eq_of_beq (List.mem_takeWhile_imp (p := (· == "")) hblank)
    generalize parts.reverse.takeWhile (· == "") = blanks at hparts hblanks
    refine ⟨beq_eq_false_iff_ne.mp hname, blanks.reverse, fun blank hblank => ?_, ?_⟩
    · exact hblanks blank (List.mem_reverse.mp hblank)
    · rw [List.reverse_eq_iff.mp hparts.symm, List.reverse_append, List.reverse_cons, List.append_assoc]
      rfl
  · rintro ⟨hname, blanks, hblanks, rfl⟩
    rw [List.reverse_append, List.reverse_cons, List.append_assoc, List.dropWhile_append_of_pos, List.singleton_append,
      List.dropWhile_cons_of_neg, List.reverse_reverse]
    · rwa [beq_iff_eq]
    · exact fun blank hblank => beq_iff_eq.mpr (hblanks blank (List.mem_reverse.mp hblank))

/-- What the end of a path is: its last part that is not empty, in the directory that those in front of it lead to. -/
structure IsSpot (fs : FileSystem) (path : Path) (spot : Spot) : Prop where
  length : checkLength path = .ok ()
  parts : ∃ front blanks, (∀ blank ∈ blanks, blank = "") ∧ path.parts = front ++ spot.name :: blanks ∧
    fs.follow (fs.start path) front = .ok spot.above
  not_empty : spot.name ≠ ""
  short : spot.name.utf8ByteSize ≤ nameLimit
  entries : fs.root.at? spot.above = some (.directory spot.entries)
  closed : spot.closed = (path.parts.getLast? == some "")

theorem spot_eq_ok_iff {fs : FileSystem} {path : Path} {spot : Spot} :
    fs.spot path = .ok (some spot) ↔ fs.IsSpot path spot := by
  constructor
  · intro h
    obtain ⟨⟨⟩, hlength, h⟩ := bind_eq_ok.mp h
    split at h
    · cases h
    · rename_i name front hparts
      obtain ⟨hname, blanks, hblanks, hparts⟩ := dropWhile_reverse_eq_cons_iff.mp hparts
      obtain ⟨above, hfollow, h⟩ := bind_eq_ok.mp h
      split at h
      · cases h
      · cases h
      · rename_i entries hentries
        split_ifs at h with hlong
        · cases h
        · cases h
          exact ⟨hlength, ⟨front.reverse, blanks, hblanks, hparts, hfollow⟩, hname, Nat.le_of_not_lt hlong, hentries,
            rfl⟩
  · intro h
    obtain ⟨front, blanks, hblanks, hparts, hfollow⟩ := h.parts
    have hend : path.parts.reverse.dropWhile (· == "") = spot.name :: front.reverse :=
      dropWhile_reverse_eq_cons_iff.mpr ⟨h.not_empty, blanks, hblanks, by rwa [List.reverse_reverse]⟩
    rw [FileSystem.spot, h.length, hend]
    simp only [bind, Except.bind, List.reverse_reverse, hfollow, h.entries, if_neg (Nat.not_lt.mpr h.short),
      ← h.closed]
    rfl

/-- A path that does not end with a slash ends with the name. -/
theorem IsSpot.parts_of_open {fs : FileSystem} {path : Path} {spot : Spot} (h : fs.IsSpot path spot)
    (hopen : spot.closed = false) :
    ∃ front, path.parts = front ++ [spot.name] ∧ fs.follow (fs.start path) front = .ok spot.above := by
  obtain ⟨front, blanks, hblanks, hparts, hfollow⟩ := h.parts
  rcases List.eq_nil_or_concat blanks with rfl | ⟨init, last, rfl⟩
  · exact ⟨front, hparts, hfollow⟩
  · have hlast : path.parts.getLast? = some "" := by
      rw [hparts, List.concat_eq_append, ← List.cons_append, ← List.append_assoc, List.getLast?_concat,
        hblanks last (by simp)]
    rw [h.closed, hlast] at hopen
    cases hopen

theorem isName_iff {spot : Spot} (hname : spot.name ≠ "") (hshort : spot.name.utf8ByteSize ≤ nameLimit) :
    IsName spot.name ↔ spot.isStep = false := by
  rw [Spot.isStep, Bool.or_eq_false_iff, beq_eq_false_iff_ne, beq_eq_false_iff_ne]
  constructor
  · intro h
    have hidle := h.not_idle
    rw [Path.isIdle, Bool.or_eq_false_iff, beq_eq_false_iff_ne, beq_eq_false_iff_ne] at hidle
    exact ⟨hidle.2, h.not_up⟩
  · rintro ⟨hhere, hup⟩
    refine ⟨?_, hup, hshort⟩
    rw [Path.isIdle, Bool.or_eq_false_iff, beq_eq_false_iff_ne, beq_eq_false_iff_ne]
    exact ⟨hname, hhere⟩

/-! ## Writing a file -/

/-- A file can be written at a path: the last part is a name and those in front of it lead to a directory, which has no
directory of this name. -/
structure CanWrite (fs : FileSystem) (path : Path) (above : List String) (name : String) : Prop where
  length : checkLength path = .ok ()
  parts : ∃ front, path.parts = front ++ [name] ∧ fs.follow (fs.start path) front = .ok above
  directory : fs.held? above = some .directory
  isName : IsName name
  free : fs.held? (above ++ [name]) ≠ some .directory

/-- The place of the file is the end of its path. -/
theorem CanWrite.isSpot {fs : FileSystem} {path : Path} {above : List String} {name : String}
    {entries : List (String × Entry)} (h : fs.CanWrite path above name)
    (hentries : fs.root.at? above = some (.directory entries)) : fs.IsSpot path ⟨above, entries, name, false⟩ := by
  obtain ⟨front, hparts, hfollow⟩ := h.parts
  have hname : name ≠ "" := by
    rintro rfl
    exact absurd h.isName.not_idle (by decide)
  refine ⟨h.length, ⟨front, [], List.forall_mem_nil _, hparts, hfollow⟩, hname, h.isName.short, hentries, ?_⟩
  rw [hparts, List.getLast?_concat]
  exact (beq_eq_false_iff_ne.mpr fun hblank => hname (Option.some.inj hblank)).symm

theorem write_eq_ok_iff {fs after : FileSystem} {path : Path} {text : String} : fs.write path text = .ok after ↔
    ∃ above name, fs.CanWrite path above name ∧
      after = { fs with root := fs.root.put (above ++ [name]) (.file text.toUTF8) } := by
  constructor
  · intro h
    obtain ⟨spot?, hspot, h⟩ := bind_eq_ok.mp h
    cases spot? with
    | none => cases h
    | some spot =>
      dsimp only at h
      split_ifs at h with hrefused
      · cases h
      · rw [Bool.or_eq_true, Bool.or_eq_true, not_or, not_or, Bool.not_eq_true, Bool.not_eq_true] at hrefused
        obtain ⟨⟨hopen, hstep⟩, hfree⟩ := hrefused
        have hend := spot_eq_ok_iff.mp hspot
        rw [any_isDirectory_iff hend.entries] at hfree
        refine ⟨spot.above, spot.name, ⟨hend.length, hend.parts_of_open hopen, ?_, ?_, hfree⟩, ?_⟩
        · exact held?_eq_directory_iff.mpr ⟨_, hend.entries⟩
        · exact (isName_iff hend.not_empty hend.short).mpr hstep
        · exact (Except.ok.inj h).symm
  · rintro ⟨above, name, h, rfl⟩
    obtain ⟨entries, hentries⟩ := held?_eq_directory_iff.mp h.directory
    have hend := h.isSpot hentries
    have hstep : (Spot.mk above entries name false).isStep = false :=
      (isName_iff hend.not_empty h.isName.short).mp h.isName
    have hfree := mt (any_isDirectory_iff hentries name).mp h.free
    rw [write, spot_eq_ok_iff.mpr hend]
    simp only [bind, Except.bind, hstep, Bool.false_or, if_neg hfree]
    rfl

/-- What is written stands where the path leads then, and nothing else changes. -/
theorem CanWrite.writes {fs : FileSystem} {path : Path} {above : List String} {name : String}
    (h : fs.CanWrite path above name) (bytes : ByteArray) :
    Writes fs [(above ++ [name], bytes)] { fs with root := fs.root.put (above ++ [name]) (.file bytes) } :=
  writes_put h.directory h.free bytes

theorem CanWrite.follow {fs after : FileSystem} {path : Path} {above : List String} {name : String}
    (h : fs.CanWrite path above name) (hafter : Extends fs after) (hplace : (after.held? (above ++ [name])).isSome) :
    after.follow (after.start path) path.parts = .ok (above ++ [name]) := by
  obtain ⟨front, hparts, hfollow⟩ := h.parts
  obtain ⟨held, hheld⟩ := Option.isSome_iff_exists.mp hplace
  rw [hafter.start_eq, hparts, follow_append_eq_ok_iff]
  exact ⟨above, hafter.follow hfollow,
    follow_singleton_eq_ok_iff.mpr ⟨hafter.directory h.directory, .down h.isName hheld⟩⟩

/-- A file can still be written when others are. -/
theorem CanWrite.mono {fs after : FileSystem} {path : Path} {above : List String} {name : String}
    {files : List (List String × ByteArray)} (h : fs.CanWrite path above name) (hwrites : Writes fs files after)
    (hplace : above ++ [name] ∉ files.map Prod.fst) : after.CanWrite path above name := by
  have hextends := hwrites.gains.extends
  obtain ⟨front, hparts, hfollow⟩ := h.parts
  refine ⟨h.length, ⟨front, hparts, ?_⟩, hextends.directory h.directory, h.isName, ?_⟩
  · rw [hextends.start_eq]
    exact hextends.follow hfollow
  · rw [hwrites.kept _ hplace]
    exact h.free

/-- The text of a file is read back. -/
theorem read_eq_ok {fs : FileSystem} {path : Path} {place : List String} {text : String}
    (hlength : checkLength path = .ok ()) (hfollow : fs.follow (fs.start path) path.parts = .ok place)
    (hplace : fs.held? place = some (.file text.toUTF8)) : fs.read path = .ok text := by
  have hentry : fs.entry path = .ok (.file text.toUTF8) := by
    rw [entry, hlength]
    simp only [bind, Except.bind, hfollow, held?_eq_file_iff.mp hplace]
    rfl
  have htext : String.fromUTF8? text.toUTF8 = some text := dif_pos text.isValidUTF8
  rw [read, hentry]
  simp only [bind, Except.bind, htext]
  rfl

/-! ## Making directories -/

theorem isDirectory_iff {fs : FileSystem} {path : Path} : fs.isDirectory path = true ↔ checkLength path = .ok () ∧
    ∃ place, fs.follow (fs.start path) path.parts = .ok place ∧ fs.held? place = some .directory := by
  rw [isDirectory, entry]
  cases hlength : checkLength path with
  | error e => simp [bind, Except.bind, Except.toOption]
  | ok _ =>
    cases hfollow : fs.follow (fs.start path) path.parts with
    | error e => simp [bind, Except.bind, Except.toOption]
    | ok place =>
      simp only [bind, Except.bind, Except.ok.injEq, exists_eq_left', true_and, held?]
      cases fs.root.at? place with
      | none => simp [Except.toOption, throw, throwThe, MonadExceptOf.throw]
      | some entry => cases entry <;> simp [Except.toOption, pure, Except.pure, Entry.isDirectory, Entry.held]

theorem Extends.isDirectory {before after : FileSystem} (h : Extends before after) {path : Path}
    (hpath : before.isDirectory path = true) : after.isDirectory path = true := by
  obtain ⟨hlength, place, hfollow, hplace⟩ := isDirectory_iff.mp hpath
  refine isDirectory_iff.mpr ⟨hlength, place, ?_, h.directory hplace⟩
  rw [h.start_eq]
  exact h.follow hfollow

theorem follow_blanks {fs : FileSystem} {place : List String} (hplace : fs.held? place = some .directory) :
    ∀ {blanks : List String}, (∀ blank ∈ blanks, blank = "") → fs.follow place blanks = .ok place
  | [], _ => rfl
  | blank :: blanks, hblanks => by
    obtain ⟨rfl, hrest⟩ := List.forall_mem_cons.mp hblanks
    exact follow_cons_eq_ok_iff.mpr ⟨place, ⟨hplace, .here rfl⟩, follow_blanks hplace hrest⟩

/-- A directory that is made stands, and nothing else changes. -/
theorem makeDirectory_eq_ok {fs after : FileSystem} {path : Path} (h : fs.makeDirectory path = .ok after) :
    Gains fs [] after ∧ after.isDirectory path = true := by
  obtain ⟨spot?, hspot, h⟩ := bind_eq_ok.mp h
  cases spot? with
  | none => cases h
  | some spot =>
    dsimp only at h
    split_ifs at h with hrefused
    · cases h
    · rw [Bool.or_eq_true, not_or, Bool.not_eq_true, Bool.not_eq_true, Option.isSome_eq_false_iff,
        Option.isNone_iff_eq_none] at hrefused
      obtain ⟨hstep, hlookup⟩ := hrefused
      have hend := spot_eq_ok_iff.mp hspot
      have habove : fs.held? spot.above = some .directory := held?_eq_directory_iff.mpr ⟨_, hend.entries⟩
      have hfree : fs.held? (spot.above ++ [spot.name]) = none := by
        rw [held?, ← lookup_eq_at? hend.entries, hlookup, Option.map_none]
      have hafter : { fs with root := fs.root.put spot.names (.directory []) } = after := Except.ok.inj h
      have hgains : Gains fs [] after := hafter ▸ gains_put habove hfree
      have hmade : after.held? spot.names = some .directory := by
        rw [← hafter, Spot.names, held?_put Entry.isLeaf_directory_nil habove (ne_directory_of_eq_none hfree),
          if_pos rfl]
        rfl
      obtain ⟨front, blanks, hblanks, hparts, hfollow⟩ := hend.parts
      refine ⟨hgains, isDirectory_iff.mpr ⟨hend.length, spot.names, ?_, hmade⟩⟩
      rw [hgains.extends.start_eq, hparts, follow_append_eq_ok_iff]
      refine ⟨spot.above, hgains.extends.follow hfollow, follow_cons_eq_ok_iff.mpr ⟨spot.names, ?_, ?_⟩⟩
      · exact ⟨hgains.extends.directory habove, .down ((isName_iff hend.not_empty hend.short).mpr hstep) hmade⟩
      · exact follow_blanks hmade hblanks

/-- Where the end of a path leads somewhere, it is a step or the name of an entry. -/
theorem Leads.isStep_or_isSome {fs : FileSystem} {spot : Spot} {next : List String}
    (h : fs.Leads spot.above spot.name next) (hname : spot.name ≠ "")
    (hentries : fs.root.at? spot.above = some (.directory spot.entries)) :
    spot.name.utf8ByteSize ≤ nameLimit ∧ (spot.isStep || (spot.entries.lookup spot.name).isSome) = true := by
  rw [Spot.isStep]
  cases h with
  | here hidle =>
    rw [Path.isIdle, Bool.or_eq_true, beq_iff_eq, beq_iff_eq] at hidle
    rw [hidle.resolve_left hname]
    exact ⟨by decide, rfl⟩
  | up hup =>
    rw [hup]
    exact ⟨by decide, rfl⟩
  | down hisName hheld =>
    rw [held?, ← lookup_eq_at? hentries] at hheld
    obtain ⟨entry, hentry, -⟩ := Option.map_eq_some_iff.mp hheld
    rw [hentry]
    exact ⟨hisName.short, Bool.or_true _⟩

/-- The end of a path that leads somewhere, if it has one, is a step or the name of an entry. -/
theorem exists_isSpot_of_follow {fs : FileSystem} {path : Path} {place front : List String} {name : String}
    (hlength : checkLength path = .ok ()) (hfollow : fs.follow (fs.start path) path.parts = .ok place)
    (hend : path.parts.reverse.dropWhile (· == "") = name :: front) :
    ∃ spot, fs.IsSpot path spot ∧ (spot.isStep || (spot.entries.lookup spot.name).isSome) = true := by
  obtain ⟨hname, blanks, hblanks, hparts⟩ := dropWhile_reverse_eq_cons_iff.mp hend
  rw [hparts, follow_append_eq_ok_iff] at hfollow
  obtain ⟨above, hfront, hfollow⟩ := hfollow
  obtain ⟨next, ⟨habove, hleads⟩, -⟩ := follow_cons_eq_ok_iff.mp hfollow
  obtain ⟨entries, hentries⟩ := held?_eq_directory_iff.mp habove
  have hthere :=
    @Leads.isStep_or_isSome fs ⟨above, entries, name, path.parts.getLast? == some ""⟩ next hleads hname hentries
  exact ⟨_, ⟨hlength, ⟨front.reverse, blanks, hblanks, hparts, hfront⟩, hname, hthere.1, hentries, rfl⟩, hthere.2⟩

/-- A directory is not made again. -/
theorem makeDirectory_of_isDirectory {fs : FileSystem} {path : Path} (h : fs.isDirectory path = true) :
    fs.makeDirectory path = .error .present := by
  obtain ⟨hlength, place, hfollow, -⟩ := isDirectory_iff.mp h
  cases hend : path.parts.reverse.dropWhile (· == "") with
  | nil =>
    have hspot : fs.spot path = .ok none := by
      rw [FileSystem.spot, hlength, hend]
      rfl
    rw [makeDirectory, hspot]
    rfl
  | cons name front =>
    obtain ⟨spot, hspot, hthere⟩ := exists_isSpot_of_follow hlength hfollow hend
    rw [makeDirectory, spot_eq_ok_iff.mpr hspot]
    simp only [bind, Except.bind, hthere, if_true]
    rfl

/-! ## Making all directories of a path -/

/-- Makes a directory whose parent is there; one that is there already is as good as a new one. -/
def makeOne (fs : FileSystem) (path : Path) : Except FileError Unit × FileSystem :=
  match fs.makeDirectory path with
  | .ok fs => (.ok (), fs)
  | .error error => (if fs.isDirectory path then .ok () else .error error, fs)

theorem makeOne_spec {fs after : FileSystem} {path : Path} {result : Except FileError Unit}
    (h : fs.makeOne path = (result, after)) :
    Gains fs [] after ∧ (result = .ok () → after.isDirectory path = true) := by
  unfold makeOne at h
  split at h
  · rename_i made hmade
    obtain ⟨hgains, hpath⟩ := makeDirectory_eq_ok hmade
    cases h
    exact ⟨hgains, fun _ => hpath⟩
  · cases h
    refine ⟨.refl fs, fun hresult => ?_⟩
    split_ifs at hresult with hpath
    exact hpath

/-- A directory is made at once, or behind those above it if these can be made. -/
theorem makeFirst_cases (fs : FileSystem) {path : Path} (above : List Path) (h : path.text ≠ "") :
    fs.makeFirst (path :: above) = fs.makeOne path ∨ ∃ made,
      fs.makeFirst above = (.ok (), made) ∧ fs.makeFirst (path :: above) = made.makeOne path ∨
      ∃ error, fs.makeFirst above = (.error error, made) ∧ fs.makeFirst (path :: above) = (.error error, made) := by
  have hempty : ¬(path.text == "") = true := fun heq => h (beq_iff_eq.mp heq)
  rw [makeFirst, if_neg hempty]
  by_cases hmissing : fs.makeDirectory path = .error .missing
  · rw [hmissing]
    right
    match habove : fs.makeFirst above with
    | (.error error, made) => exact ⟨made, Or.inr ⟨error, rfl, rfl⟩⟩
    | (.ok (), made) => exact ⟨made, Or.inl ⟨rfl, rfl⟩⟩
  · left
    rw [makeOne]
    split
    · rename_i made hmade
      rw [hmade]
    · rename_i herror
      exact absurd herror hmissing
    · rename_i error _ herror
      rw [herror]

/-- Only directories are made, and at the end of a list that can be made, its first one stands. -/
theorem makeFirst_spec {fs : FileSystem} : ∀ {paths : List Path} {result : Except FileError Unit} {after : FileSystem},
    fs.makeFirst paths = (result, after) → Gains fs [] after ∧
      (result = .ok () → ∀ path ∈ paths.head?, path.text = "" ∨ after.isDirectory path = true)
  | [], _, _, h => by
    cases h
    exact ⟨.refl fs, fun _ => nofun⟩
  | path :: above, result, after, h => by
    have hone {made : FileSystem} (h : made.makeOne path = (result, after)) : Gains made [] after ∧
        (result = .ok () → ∀ first ∈ (path :: above).head?, first.text = "" ∨ after.isDirectory first = true) := by
      obtain ⟨hgains, hpath⟩ := makeOne_spec h
      exact ⟨hgains, fun hresult first hfirst => Or.inr (Option.some.inj hfirst ▸ hpath hresult)⟩
    by_cases hempty : path.text = ""
    · rw [makeFirst, hempty] at h
      cases h
      exact ⟨.refl fs, fun _ first hfirst => Or.inl (Option.some.inj hfirst ▸ hempty)⟩
    · rcases makeFirst_cases fs above hempty with heq | ⟨made, ⟨hmade, heq⟩ | ⟨error, hmade, heq⟩⟩
      · exact hone (heq.symm.trans h)
      · obtain ⟨hgains, hfirst⟩ := hone (heq.symm.trans h)
        exact ⟨(makeFirst_spec hmade).1.trans hgains nofun, hfirst⟩
      · cases heq.symm.trans h
        exact ⟨(makeFirst_spec hmade).1, nofun⟩

/-- A directory that is there is not made again, and neither are those above it. -/
theorem makeFirst_of_isDirectory {fs : FileSystem} : ∀ {paths : List Path},
    (∀ path ∈ paths.head?, path.text = "" ∨ fs.isDirectory path = true) → fs.makeFirst paths = (.ok (), fs)
  | [], _ => rfl
  | path :: above, h => by
    rw [makeFirst]
    rcases h path rfl with h | h
    · rw [h]
      rfl
    · rw [makeDirectory_of_isDirectory h, h]
      simp only [if_true, ite_self]

/-- Only directories are made, whether all of them can be made or not. -/
theorem makeDirectories_gains {fs after : FileSystem} {path : Path} {result : Except FileError Unit}
    (h : fs.makeDirectories path = (result, after)) : Gains fs [] after := (makeFirst_spec h).1

/-- Directories that can be made are there, and are not made again in a tree that has all that is there. -/
theorem makeDirectories_again {fs after later : FileSystem} {path : Path}
    (h : fs.makeDirectories path = (.ok (), after)) (hlater : Extends after later) :
    later.makeDirectories path = (.ok (), later) := by
  refine makeFirst_of_isDirectory fun path hpath => ?_
  exact ((makeFirst_spec h).2 rfl path hpath).imp_right hlater.isDirectory

end TypedSettings.FileSystem
