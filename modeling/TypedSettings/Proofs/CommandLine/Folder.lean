import TypedSettings.Proofs.CommandLine.Output
import TypedSettings.Proofs.Path
import TypedSettings.Proofs.Structs.SnakeCase

/-!
# Runs with an output directory

Every document has an output file in the directory, whose name is an identifier with an extension
(`Document.isOutputName`). If two documents have the same name, nothing is done. Otherwise the files are carried out in
some order, and each of them by itself: `IsCourse` says what becomes of them then.

* Whatever fails in a course, only output files of documents with code are written (`Carries.gains`).
* A file that can be carried out can still be when others are (`Ready.mono`). So if all files of one course are written,
  those of every other course are as well, and the trees are the same (`IsCourse.same`).
-/

namespace TypedSettings

open FileSystem

namespace CommandLine

/-! ## Output names -/

/-- The name of an output file: an identifier, in lower case for structs, with the extension of the target. -/
structure IsOutputName (target : Target) (name : String) : Prop where
  base : ∃ base, name = base ++ "." ++ target.extension ∧ Identifier.isWellFormed base = true ∧
    (target = .rust → Text.Lacks Char.isUpper base)
  no_separator : Text.Lacks (fun c => c == '/' || c == '\\') name
  no_parent : ¬['.', '.'] <:+: name.toList

theorem isOutputName_of_isWellFormed {target : Target} {base : String} (h : Identifier.isWellFormed base = true)
    (hlower : target = .rust → Text.Lacks Char.isUpper base) :
    IsOutputName target (base ++ "." ++ target.extension) := by
  have hname : IsNameText base := isNameText_of_isWellFormed h
  refine ⟨⟨base, rfl, h, hlower⟩, ?_, fun hinfix => ?_⟩
  · have hbase : Text.Lacks (fun c => c == '/' || c == '\\') base := hname.lacks fun c hc => by
      rcases (Bool.or_eq_true _ _).mp hc with hc | hc
      · rw [eq_of_beq hc]
        decide
      · rw [eq_of_beq hc]
        decide
    have hextension : Text.Lacks (fun c => c == '/' || c == '\\') target.extension := by
      cases target <;> decide
    exact (hbase.append (by decide)).append hextension
  · have hcount := hinfix.sublist.count_le '.'
    have hbase : base.toList.count '.' = 0 := List.count_eq_zero_of_not_mem (hname.not_mem (by decide))
    have hextension : target.extension.toList.count '.' = 0 := by cases target <;> decide
    rw [String.toList_append, String.toList_append, List.count_append, List.count_append, hbase, hextension] at hcount
    exact absurd hcount (by decide)

/-- **Every output file has a safe name**, whatever its document is called. -/
theorem Document.isOutputName (target : Target) (document : Document) :
    IsOutputName target (document.outputName target) := by
  have hidentifier := Identifier.isWellFormed_ofKey document.source.stem
  cases target with
  | rust =>
    exact isOutputName_of_isWellFormed (Structs.isWellFormed_snakeCase hidentifier)
      fun _ => Structs.lacks_isUpper_snakeCase _
  | csharp => exact isOutputName_of_isWellFormed hidentifier nofun

theorem IsOutputName.isPart {target : Target} {name : String} (h : IsOutputName target name) : Path.IsPart name where
  not_idle := by
    obtain ⟨base, rfl, -, -⟩ := h.base
    have hlong (short : String) (hshort : short.length ≤ 1) : (base ++ "." ++ target.extension == short) = false := by
      refine beq_eq_false_iff_ne.mpr fun heq => ?_
      have hlength := congrArg String.length heq
      rw [String.length_append, String.length_append] at hlength
      have hextension : target.extension.length = 2 := by cases target <;> rfl
      omega
    rw [Path.isIdle, hlong "" (by decide), hlong "." (by decide)]
    rfl
  no_slash := fun hmem => by
    have hslash := h.no_separator '/' hmem
    cases hslash

/-! ## The directory -/

/-- The place of the directory that a path leads to. -/
structure LeadsInto (fs : FileSystem) (folder : Path) (above : List String) : Prop where
  follow : fs.follow (fs.start folder) folder.inner = .ok above
  directory : fs.held? above = some .directory

section Folder

variable {fs after : FileSystem} {folder : Path} {above : List String} {name other : String}

theorem LeadsInto.mono (h : LeadsInto fs folder above) (hafter : Extends fs after) : LeadsInto after folder above :=
  ⟨by rw [hafter.start_eq]; exact hafter.follow h.follow, hafter.directory h.directory⟩

theorem LeadsInto.unique {place : List String} (h : LeadsInto fs folder above) (h' : LeadsInto fs folder place) :
    above = place := Except.ok.inj (h.follow.symm.trans h'.follow)

theorem LeadsInto.follow_parts (h : LeadsInto fs folder above) :
    fs.follow (fs.start folder) folder.parts = .ok above := by
  rcases folder.parts_eq_inner with hparts | hparts
  · rw [hparts]
    exact h.follow
  · rw [hparts, follow_append_eq_ok_iff]
    exact ⟨above, h.follow, follow_blanks h.directory (by simp)⟩

/-- An entry can be written where its directory is and has no directory of its name. -/
theorem canWrite_child_iff (hname : Path.IsPart name) : fs.CanWrite (folder.child name) above other ↔
    other = name ∧ checkLength (folder.child name) = .ok () ∧ LeadsInto fs folder above ∧ IsName name ∧
      fs.held? (above ++ [name]) ≠ some .directory := by
  have hstart : fs.start (folder.child name) = fs.start folder := by
    rw [start, start, folder.isAbsolute_child hname]
  have hparts := folder.parts_child hname
  constructor
  · rintro ⟨hlength, ⟨front, hfront, hfollow⟩, hdirectory, hisName, hfree⟩
    obtain ⟨rfl, hlast⟩ := List.append_inj' (hparts.symm.trans hfront) rfl
    obtain rfl := List.singleton_inj.mp hlast
    rw [hstart] at hfollow
    exact ⟨rfl, hlength, ⟨hfollow, hdirectory⟩, hisName, hfree⟩
  · rintro ⟨rfl, hlength, hleads, hisName, hfree⟩
    refine ⟨hlength, ⟨folder.inner, hparts, ?_⟩, hleads.directory, hisName, hfree⟩
    rw [hstart]
    exact hleads.follow

/-- The directories above an entry are the same for all names. -/
theorem makeParent_child (hname : Path.IsPart name) (hother : Path.IsPart other) :
    fs.makeParent (folder.child name) = fs.makeParent (folder.child other) := by
  rw [makeParent, makeParent, folder.parent?_child hname, folder.parent?_child hother]

end Folder

/-! ## Courses -/

/-- What becomes of planned files that are carried out one after the other, each to its end. -/
inductive Carries (options : Options) : FileSystem → List (Planned × Except Failure Unit) → FileSystem → Prop
  | nil (fs : FileSystem) : Carries options fs [] fs
  | cons {fs next after : FileSystem} {planned : Planned} {result : Except Failure Unit}
    {log : List (Planned × Except Failure Unit)} : planned.carryOut options fs = (result, next) →
    Carries options next log after → Carries options fs ((planned, result) :: log) after

/-- Whether all files of a course are written. -/
def Succeeds (log : List (Planned × Except Failure Unit)) : Prop := ∀ entry ∈ log, entry.2 = .ok ()

/-- A course of planned files: they are carried out in any order. If one fails, others may be left out. -/
structure IsCourse (options : Options) (planned : List Planned) (fs : FileSystem)
    (log : List (Planned × Except Failure Unit)) (after : FileSystem) : Prop where
  carries : Carries options fs log after
  order : ∃ omitted, (log.map Prod.fst ++ omitted).Perm planned ∧ (Succeeds log → omitted = [])

/-- The documents whose files are written in a course. -/
def written (log : List (Planned × Except Failure Unit)) : List Document :=
  (log.filter (·.2.isOk)).map (·.1.document)

/-- The file of a document in a directory, with its place and its bytes. -/
def Document.fileIn (options : Options) (above : List String) (document : Document) : List String × ByteArray :=
  (above ++ [document.outputName options.target], ((document.code options).toOption.getD "").toUTF8)

/-- A file is the one for a document in a directory: it has the output name of the document, and holds the source text
of the schema of its value. -/
def Document.IsFile (options : Options) (above : List String) (document : Document) (file : List String × ByteArray) :
    Prop :=
  ∃ schema, Schema.ofValue options document.value = .ok schema ∧
    file = (above ++ [document.outputName options.target], (schema.source options).toUTF8)

/-- A document with code has a file. -/
theorem Document.isFile_fileIn {options : Options} {document : Document}
    (h : ∃ code, document.code options = .ok code) (above : List String) :
    document.IsFile options above (document.fileIn options above) := by
  obtain ⟨code, hcode⟩ := h
  obtain ⟨schema, hschema, rfl⟩ := Document.code_eq_ok_iff.mp hcode
  refine ⟨schema, hschema, ?_⟩
  rw [Document.fileIn, hcode]
  rfl

/-- A planned file is the one of its document in a directory. -/
def Planned.IsIn (options : Options) (folder : Path) (planned : Planned) : Prop :=
  planned.output = folder.child (planned.document.outputName options.target)

/-- Where the name of a document ends the place of a file, the file is that of a document with this name. -/
theorem name_mem_of_place_mem {options : Options} {above place : List String} {document : Document}
    {chosen : List Document} (h : place ++ [document.outputName options.target] ∈
      (chosen.map (Document.fileIn options above)).map Prod.fst) :
    document.outputName options.target ∈ chosen.map (Document.outputName options.target) := by
  rw [List.map_map, List.mem_map] at h
  obtain ⟨other, hother, heq⟩ := h
  rw [Function.comp_apply, Document.fileIn] at heq
  dsimp only at heq
  have hlast := (List.append_inj' heq (by rw [List.length_singleton, List.length_singleton])).2
  rw [← List.singleton_inj.mp hlast]
  exact List.mem_map_of_mem hother

/-- A document that is not among those chosen has no file among theirs, whatever the directory. -/
theorem place_not_mem_of_not_mem {options : Options} {above place : List String} {document : Document}
    {documents chosen : List Document} (hnames : (documents.map (Document.outputName options.target)).Nodup)
    (hchosen : chosen ⊆ documents) (hdocument : document ∈ documents) (h : document ∉ chosen) :
    place ++ [document.outputName options.target] ∉
      (chosen.map (Document.fileIn options above)).map Prod.fst := fun hplace => by
  obtain ⟨other, hother, hname⟩ := List.mem_map.mp (name_mem_of_place_mem hplace)
  obtain rfl := List.inj_on_of_nodup_map hnames (hchosen hother) hdocument hname
  exact h hother

theorem written_subset (log : List (Planned × Except Failure Unit)) : written log ⊆ log.map (·.1.document) :=
  List.map_subset _ (List.filter_subset_self log)

section Course

variable {options : Options} {folder : Path} {fs next after : FileSystem} {planned : Planned}
  {log : List (Planned × Except Failure Unit)}

theorem isPart_outputName (options : Options) (document : Document) :
    Path.IsPart (document.outputName options.target) := (document.isOutputName options.target).isPart

theorem carryOut_eq_ok_iff : planned.carryOut options fs = (.ok (), next) ↔
    ∃ code, planned.document.code options = .ok code ∧ store planned.output code fs = (.ok (), next) := by
  rw [Planned.carryOut]
  cases planned.document.code options with
  | error failure => simp
  | ok code => simp

theorem carryOut_error_gains {failure : Failure} (h : planned.carryOut options fs = (.error failure, next)) :
    Gains fs [] next := by
  rw [Planned.carryOut] at h
  split at h
  · cases h
    exact .refl fs
  · exact store_error_gains h

/-- A file that is carried out stands in its directory. -/
theorem carryOut_ok_gains (hin : planned.IsIn options folder) (h : planned.carryOut options fs = (.ok (), next)) :
    (∃ code, planned.document.code options = .ok code) ∧
      ∃ above, LeadsInto next folder above ∧ Gains fs [planned.document.fileIn options above] next := by
  obtain ⟨code, hcode, hstore⟩ := carryOut_eq_ok_iff.mp h
  obtain ⟨made, above, name, hmade, hcan, rfl⟩ := store_eq_ok_iff.mp hstore
  rw [hin] at hcan
  obtain ⟨rfl, -, hleads, -, -⟩ := (canWrite_child_iff (isPart_outputName options _)).mp hcan
  have hwrites := hcan.writes code.toUTF8
  refine ⟨⟨code, hcode⟩, above, hleads.mono hwrites.gains.extends, ?_⟩
  rw [Document.fileIn, hcode]
  exact (makeParent_gains hmade).trans hwrites.gains nofun

/-- **Only output files of documents with code are written**, all of them in the directory, whatever fails. -/
theorem Carries.gains (h : Carries options fs log after) (hin : ∀ entry ∈ log, entry.1.IsIn options folder)
    (hnames : ((log.map (·.1.document)).map (Document.outputName options.target)).Nodup) :
    (∀ document ∈ written log, ∃ code, document.code options = .ok code) ∧
      ∃ above, (written log ≠ [] → LeadsInto after folder above) ∧
        Gains fs ((written log).map (Document.fileIn options above)) after := by
  induction h with
  | nil fs => exact ⟨nofun, [], nofun, .refl fs⟩
  | @cons fs next after planned result log hstep _ ih =>
    obtain ⟨hplanned, hrest⟩ := List.forall_mem_cons.mp hin
    rw [List.map_cons, List.map_cons, List.nodup_cons] at hnames
    obtain ⟨hcodes, above, hleads, hgains⟩ := ih hrest hnames.2
    cases result with
    | error failure => exact ⟨hcodes, above, hleads, (carryOut_error_gains hstep).trans hgains nofun⟩
    | ok _ =>
      obtain ⟨hcode, place, hplace, hfirst⟩ := carryOut_ok_gains hplanned hstep
      have hafter : LeadsInto after folder place := hplace.mono hgains.extends
      have hsame : (written log).map (Document.fileIn options above) =
          (written log).map (Document.fileIn options place) := by
        rcases eq_or_ne (written log) [] with hnil | hne
        · rw [hnil]
          rfl
        · rw [(hleads hne).unique hafter]
      rw [hsame] at hgains
      refine ⟨List.forall_mem_cons.mpr ⟨hcode, hcodes⟩, place, fun _ => hafter,
        hfirst.trans hgains (List.forall_mem_singleton.mpr fun hmem => hnames.1 ?_)⟩
      exact List.map_subset _ (written_subset log) (name_mem_of_place_mem hmem)

/-! ## Courses that succeed -/

/-- A planned file can be carried out: the directories above it are there, the document has code, and the file can be
written. -/
structure Ready (options : Options) (fs : FileSystem) (above : List String) (planned : Planned) : Prop where
  parent : fs.makeParent planned.output = (.ok (), fs)
  code : ∃ code, planned.document.code options = .ok code
  canWrite : fs.CanWrite planned.output above (planned.document.outputName options.target)

theorem Ready.carryOut {above : List String} (h : Ready options fs above planned) :
    ∃ next, planned.carryOut options fs = (.ok (), next) ∧ Writes fs [planned.document.fileIn options above] next := by
  obtain ⟨code, hcode⟩ := h.code
  refine ⟨_, carryOut_eq_ok_iff.mpr ⟨code, hcode, store_eq_ok_iff.mpr ⟨fs, above, _, h.parent, h.canWrite, rfl⟩⟩, ?_⟩
  rw [Document.fileIn, hcode]
  exact h.canWrite.writes code.toUTF8

/-- A file can still be carried out when another one is written. -/
theorem Ready.mono {above : List String} (h : Ready options fs above planned) {file : List String × ByteArray}
    (hwrites : Writes fs [file] next) (hne : file.1 ≠ above ++ [planned.document.outputName options.target]) :
    Ready options next above planned where
  parent := makeParent_again h.parent hwrites.gains.extends
  code := h.code
  canWrite := h.canWrite.mono hwrites fun hmem => hne (List.mem_singleton.mp hmem).symm

/-- Files that can all be carried out are carried out in any order. -/
theorem Carries.writes {above : List String} (h : Carries options fs log after)
    (hready : ∀ entry ∈ log, Ready options fs above entry.1)
    (hnames : ((log.map (·.1.document)).map (Document.outputName options.target)).Nodup) :
    Succeeds log ∧ Writes fs ((log.map (·.1.document)).map (Document.fileIn options above)) after := by
  induction h with
  | nil fs => exact ⟨List.forall_mem_nil _, .refl fs⟩
  | @cons fs next after planned result log hstep _ ih =>
    obtain ⟨hfirst, hothers⟩ := List.forall_mem_cons.mp hready
    rw [List.map_cons, List.map_cons, List.nodup_cons] at hnames
    obtain ⟨made, hmade, hwrites⟩ := hfirst.carryOut
    obtain ⟨rfl, rfl⟩ := Prod.mk.inj (hstep.symm.trans hmade)
    have hnext : ∀ entry ∈ log, Ready options next above entry.1 := fun entry hentry =>
      (hothers entry hentry).mono hwrites fun hplace => by
        have hmem : (entry.1.document.fileIn options above).1 ∈
            ((log.map (·.1.document)).map (Document.fileIn options above)).map Prod.fst :=
          List.mem_map_of_mem (List.mem_map_of_mem (List.mem_map_of_mem hentry))
        rw [Document.fileIn] at hmem
        rw [← hplace] at hmem
        exact hnames.1 (name_mem_of_place_mem hmem)
    obtain ⟨hok, hlog⟩ := ih hnext hnames.2
    exact ⟨List.forall_mem_cons.mpr ⟨rfl, hok⟩, hwrites.trans hlog <|
      List.forall_mem_singleton.mpr fun hmem => hnames.1 (name_mem_of_place_mem hmem)⟩

/-- In a course that succeeds, all files could be carried out once the directories were made. -/
theorem Carries.ready {made : FileSystem} {above : List String} (h : Carries options fs log after)
    (hin : ∀ entry ∈ log, entry.1.IsIn options folder) (hok : Succeeds log)
    (hmade : Extends made fs) (hleads : LeadsInto made folder above)
    (hparent : ∀ entry ∈ log, made.makeParent entry.1.output = (.ok (), made)) :
    ∀ entry ∈ log, Ready options made above entry.1 := by
  induction h with
  | nil fs => exact List.forall_mem_nil _
  | @cons fs next after planned result log hstep _ ih =>
    obtain ⟨hplanned, hrest⟩ := List.forall_mem_cons.mp hin
    obtain ⟨rfl, hothers⟩ := List.forall_mem_cons.mp hok
    obtain ⟨hfirst, hparents⟩ := List.forall_mem_cons.mp hparent
    obtain ⟨code, hcode, hstore⟩ := carryOut_eq_ok_iff.mp hstep
    obtain ⟨again, place, name, hagain, hcan, rfl⟩ := store_eq_ok_iff.mp hstore
    -- The directories are there, so that nothing is made again.
    obtain ⟨-, rfl⟩ := Prod.mk.inj (hagain.symm.trans (makeParent_again hfirst hmade))
    have hnext := hmade.trans (hcan.writes code.toUTF8).gains.extends
    refine List.forall_mem_cons.mpr ⟨⟨hfirst, ⟨code, hcode⟩, ?_⟩, ih hrest hothers hnext hparents⟩
    rw [hplanned, canWrite_child_iff (isPart_outputName options _)] at hcan ⊢
    obtain ⟨-, hlength, hplace, hname, hfree⟩ := hcan
    obtain rfl := (hleads.mono hmade).unique hplace
    exact ⟨rfl, hlength, hleads, hname, fun hdirectory => hfree (hmade.directory hdirectory)⟩

/-- Where the directories can be made, a document with code is carried out as it is behind them. -/
theorem carryOut_made {made : FileSystem} (hcode : ∃ code, planned.document.code options = .ok code)
    (hmade : fs.makeParent planned.output = (.ok (), made)) :
    planned.carryOut options fs = planned.carryOut options made := by
  obtain ⟨code, hcode⟩ := hcode
  have hagain := makeParent_again hmade (.refl made)
  rw [Planned.carryOut, Planned.carryOut, hcode]
  dsimp only
  rw [store, store, ← makeParent, ← makeParent, hmade, hagain]

theorem map_document_fst (log : List (Planned × Except Failure Unit)) :
    (log.map Prod.fst).map Planned.document = log.map (·.1.document) := List.map_map

theorem IsCourse.mem_planned {planned : List Planned} (h : IsCourse options planned fs log after) :
    ∀ entry ∈ log, entry.1 ∈ planned := by
  obtain ⟨omitted, hperm, -⟩ := h.order
  exact fun entry hentry => hperm.subset (List.mem_append_left _ (List.mem_map_of_mem hentry))

theorem IsCourse.nodup_names {planned : List Planned} (h : IsCourse options planned fs log after)
    (hnames : ((planned.map Planned.document).map (Document.outputName options.target)).Nodup) :
    ((log.map (·.1.document)).map (Document.outputName options.target)).Nodup := by
  obtain ⟨omitted, hperm, -⟩ := h.order
  have hlog := ((hperm.map Planned.document).map (Document.outputName options.target)).nodup_iff.mpr hnames
  rw [List.map_append, List.map_append, map_document_fst] at hlog
  exact hlog.of_append_left

theorem IsCourse.perm_planned {planned : List Planned} (h : IsCourse options planned fs log after)
    (hok : Succeeds log) : (log.map Prod.fst).Perm planned := by
  obtain ⟨omitted, hperm, hnone⟩ := h.order
  rwa [hnone hok, List.append_nil] at hperm

/-- The directories for planned files can be made, and then all files can be carried out. -/
def AllReady (options : Options) (fs : FileSystem) (planned : List Planned) (made : FileSystem) (above : List String) :
    Prop :=
  ∀ file ∈ planned, fs.makeParent file.output = (.ok (), made) ∧ Ready options made above file

/-- A course that succeeds shows that all files can be carried out. -/
theorem IsCourse.allReady {planned : List Planned} (h : IsCourse options planned fs log after)
    (hin : ∀ file ∈ planned, file.IsIn options folder) (hok : Succeeds log) :
    ∃ made above, AllReady options fs planned made above := by
  have hperm := h.perm_planned hok
  have hinlog : ∀ entry ∈ log, entry.1.IsIn options folder := fun entry hentry => hin _ (h.mem_planned entry hentry)
  cases h.carries with
  | nil => exact ⟨fs, [], by rw [List.nil_perm.mp hperm]; exact List.forall_mem_nil _⟩
  | @cons _ next _ first result log hstep hrest =>
    obtain ⟨hfirst, -⟩ := List.forall_mem_cons.mp hinlog
    obtain ⟨rfl, -⟩ := List.forall_mem_cons.mp hok
    obtain ⟨code, hcode, hstore⟩ := carryOut_eq_ok_iff.mp hstep
    obtain ⟨made, above, name, hmade, hcan, -⟩ := store_eq_ok_iff.mp hstore
    rw [hfirst] at hcan
    obtain ⟨-, -, hleads, -, -⟩ := (canWrite_child_iff (isPart_outputName options _)).mp hcan
    have hparents : ∀ file ∈ planned, fs.makeParent file.output = (.ok (), made) := fun file hfile => by
      rw [← hmade, hfirst, hin file hfile]
      exact makeParent_child (isPart_outputName options _) (isPart_outputName options _)
    have hcarries : Carries options made ((first, .ok ()) :: log) after :=
      .cons ((carryOut_made ⟨code, hcode⟩ hmade).symm.trans hstep) hrest
    have hready := hcarries.ready hinlog hok (.refl made) hleads fun entry hentry =>
      makeParent_again (hparents _ (h.mem_planned entry hentry)) (.refl made)
    refine ⟨made, above, fun file hfile => ⟨hparents file hfile, ?_⟩⟩
    obtain ⟨entry, hentry, rfl⟩ := List.mem_map.mp (hperm.mem_iff.mpr hfile)
    exact hready entry hentry

/-- Where all files can be carried out, every course carries them all out. -/
theorem IsCourse.writes {planned : List Planned} {made : FileSystem} {above : List String}
    (h : IsCourse options planned fs log after) (hne : planned ≠ [])
    (hnames : ((planned.map Planned.document).map (Document.outputName options.target)).Nodup)
    (hready : AllReady options fs planned made above) :
    Succeeds log ∧ Writes made ((log.map (·.1.document)).map (Document.fileIn options above)) after := by
  have hlog : ∀ entry ∈ log, Ready options made above entry.1 := fun entry hentry =>
    (hready _ (h.mem_planned entry hentry)).2
  have hnodup := h.nodup_names hnames
  cases h.carries with
  | nil => exact absurd (List.nil_perm.mp (h.perm_planned (List.forall_mem_nil _))) hne
  | @cons _ next _ first result log hstep hrest =>
    obtain ⟨hmade, hfirst⟩ := hready first (h.mem_planned _ List.mem_cons_self)
    have hcarries : Carries options made ((first, result) :: log) after :=
      .cons ((carryOut_made hfirst.code hmade).symm.trans hstep) hrest
    exact hcarries.writes hlog hnodup

section Success

variable {planned : List Planned} (hin : ∀ file ∈ planned, file.IsIn options folder)
  (hnames : ((planned.map Planned.document).map (Document.outputName options.target)).Nodup)

include hin hnames

/-- The files of a course that succeeds hold the code for their documents. -/
theorem IsCourse.read_eq_ok (h : IsCourse options planned fs log after) (hok : Succeeds log) :
    ∀ file ∈ planned, ∃ code, file.document.code options = .ok code ∧ after.read file.output = .ok code := by
  intro file hfile
  obtain ⟨made, above, hready⟩ := h.allReady hin hok
  obtain ⟨-, hwrites⟩ := h.writes (List.ne_nil_of_mem hfile) hnames hready
  obtain ⟨entry, hentry, rfl⟩ := List.mem_map.mp ((h.perm_planned hok).mem_iff.mpr hfile)
  obtain ⟨-, -, ⟨code, hcode⟩, hcan⟩ := hready _ hfile
  have hplace := hwrites.written _ (List.mem_map_of_mem (List.mem_map_of_mem hentry))
  rw [Document.fileIn, hcode] at hplace
  have hfollow := hcan.follow hwrites.gains.extends (Option.isSome_of_mem hplace)
  exact ⟨code, hcode, FileSystem.read_eq_ok hcan.length hfollow hplace⟩

/-- **Where one course succeeds, all do, and leave the same tree.** -/
theorem IsCourse.same (h : IsCourse options planned fs log after) (hok : Succeeds log)
    {log' : List (Planned × Except Failure Unit)} {after' : FileSystem} (h' : IsCourse options planned fs log' after') :
    Succeeds log' ∧ ∀ place, after'.held? place = after.held? place := by
  rcases eq_or_ne planned [] with rfl | hne
  · have hnil {log : List (Planned × Except Failure Unit)} {after : FileSystem} (h : IsCourse options [] fs log after) :
        log = [] := List.eq_nil_iff_forall_not_mem.mpr fun entry hentry => List.not_mem_nil (h.mem_planned entry hentry)
    obtain rfl := hnil h
    obtain rfl := hnil h'
    cases h.carries
    cases h'.carries
    exact ⟨List.forall_mem_nil _, fun _ => rfl⟩
  · obtain ⟨made, above, hready⟩ := h.allReady hin hok
    obtain ⟨-, hwrites⟩ := h.writes hne hnames hready
    obtain ⟨hok', hwrites'⟩ := h'.writes hne hnames hready
    have hperm : (log'.map Prod.fst).Perm (log.map Prod.fst) := (h'.perm_planned hok').trans (h.perm_planned hok).symm
    have hfiles := (hperm.map Planned.document).map (Document.fileIn options above)
    rw [map_document_fst, map_document_fst] at hfiles
    exact ⟨hok', hwrites'.held?_eq hwrites fun _ => hfiles.mem_iff⟩

end Success

end Course

/-! ## The planned files of documents -/

section Plan

variable {options : Options} {folder : Path} {documents : List Document} {fs : FileSystem}

theorem repeated?_eq_none_iff : ∀ {planned : List Planned} {before : List Path},
    repeated? before planned = none ↔
      (planned.map Planned.output).Nodup ∧ ∀ file ∈ planned, file.output ∉ before
  | [], _ => by simp [repeated?]
  | file :: rest, before => by
    rw [repeated?]
    split_ifs with hmem
    · simp [hmem]
    · rw [repeated?_eq_none_iff, List.map_cons, List.nodup_cons, List.forall_mem_cons, List.mem_map]
      simp only [List.mem_cons, not_or]
      constructor
      · rintro ⟨hnodup, hrest⟩
        refine ⟨⟨?_, hnodup⟩, hmem, fun other hother => (hrest other hother).2⟩
        rintro ⟨other, hother, heq⟩
        exact (hrest other hother).1 heq
      · rintro ⟨⟨hfile, hnodup⟩, -, hrest⟩
        exact ⟨hnodup, fun other hother => ⟨fun heq => hfile ⟨other, hother, heq⟩, hrest other hother⟩⟩

/-- No planned file is planned twice where the documents have different output names. -/
theorem repeated?_plan_eq_none_iff : repeated? [] (plan options folder documents) = none ↔
    (documents.map (Document.outputName options.target)).Nodup := by
  have hmap : (plan options folder documents).map Planned.output =
      (documents.map (Document.outputName options.target)).map folder.child := by
    rw [plan, List.map_map, List.map_map]
    rfl
  rw [repeated?_eq_none_iff, hmap, List.nodup_map_iff fun _ _ => Path.child_inj]
  exact and_iff_left fun _ _ => List.not_mem_nil

/-- Planned files that are carried out up to the first failure have a course. -/
theorem exists_carries_carryOutAll : ∀ (planned : List Planned) (stderr : String) (fs : FileSystem),
    ∃ log omitted, Carries options fs log (carryOutAll options stderr planned fs).files ∧
      log.map Prod.fst ++ omitted = planned ∧ (Succeeds log → omitted = []) ∧
      ((carryOutAll options stderr planned fs).failure? = none ↔ Succeeds log)
  | [], _, fs => ⟨[], [], .nil fs, rfl, fun _ => rfl, iff_of_true rfl (List.forall_mem_nil _)⟩
  | file :: rest, stderr, fs => by
    rw [carryOutAll]
    match hstep : file.carryOut options fs with
    | (.error failure, next) =>
      have hfails : ¬Succeeds [(file, .error failure)] := fun hok => by cases (List.forall_mem_cons.mp hok).1
      exact ⟨[(file, .error failure)], rest, .cons hstep (.nil next), rfl, fun hok => absurd hok hfails,
        iff_of_false nofun hfails⟩
    | (.ok (), next) =>
      obtain ⟨log, omitted, hcarries, hrest, hnone, hfailure⟩ := exists_carries_carryOutAll rest _ next
      have hsucceeds : Succeeds ((file, .ok ()) :: log) ↔ Succeeds log :=
        List.forall_mem_cons.trans (and_iff_right rfl)
      refine ⟨(file, .ok ()) :: log, omitted, .cons hstep hcarries, ?_, hnone ∘ hsucceeds.mp, ?_⟩
      · rw [List.map_cons, List.cons_append, hrest]
      · exact hfailure.trans hsucceeds.symm

/-- What is known of a course of the files of documents in a directory.

* Every file created or changed is that of a document: it stands in the directory, under the safe name of the document,
  and holds the source text of the schema of its value.
* No file is written for a document whose value has no schema.
* If the course succeeds, all files are written, every other course succeeds as well, and leaves the same tree. -/
structure Orderly (options : Options) (folder : Path) (documents : List Document) (fs : FileSystem)
    (log : List (Planned × Except Failure Unit)) (after : FileSystem) : Prop where
  files : ∃ above files, (written log ≠ [] → after.follow (after.start folder) folder.parts = .ok above) ∧
    (∀ document ∈ written log,
      document ∈ documents ∧ IsOutputName options.target (document.outputName options.target)) ∧
    List.Forall₂ (Document.IsFile options above) (written log) files ∧ Gains fs files after
  failed : ∀ document ∈ documents, ∀ error, Schema.ofValue options document.value = .error error → ∀ above bytes,
    after.held? (above ++ [document.outputName options.target]) = some (.file bytes) →
    fs.held? (above ++ [document.outputName options.target]) = some (.file bytes)
  complete : Succeeds log → ∀ document ∈ documents, ∃ schema, Schema.ofValue options document.value = .ok schema ∧
    after.read (folder.child (document.outputName options.target)) = .ok (schema.source options)
  same : Succeeds log → ∀ log' after', IsCourse options (plan options folder documents) fs log' after' →
    Succeeds log' ∧ ∀ place, after'.held? place = after.held? place

theorem map_document_plan (options : Options) (folder : Path) (documents : List Document) :
    (plan options folder documents).map Planned.document = documents := by
  rw [plan, List.map_map]
  exact List.map_id documents

/-- Only documents of a plan are written. -/
theorem IsCourse.written_subset_documents {log : List (Planned × Except Failure Unit)} {after : FileSystem}
    (h : IsCourse options (plan options folder documents) fs log after) : written log ⊆ documents := by
  intro document hdocument
  obtain ⟨entry, hentry, rfl⟩ := List.mem_map.mp (written_subset log hdocument)
  rw [← map_document_plan options folder documents]
  exact List.mem_map_of_mem (h.mem_planned entry hentry)

/-- **Every course of the files of documents with different output names is orderly.** -/
theorem IsCourse.orderly {log : List (Planned × Except Failure Unit)} {after : FileSystem}
    (h : IsCourse options (plan options folder documents) fs log after)
    (hnames : (documents.map (Document.outputName options.target)).Nodup) :
    Orderly options folder documents fs log after := by
  have hmem := h.written_subset_documents
  have hin : ∀ file ∈ plan options folder documents, file.IsIn options folder :=
    List.forall_mem_map.mpr fun _ _ => rfl
  have hplanned : (((plan options folder documents).map Planned.document).map
      (Document.outputName options.target)).Nodup := by
    rwa [map_document_plan]
  obtain ⟨hcodes, above, hleads, hgains⟩ :=
    h.carries.gains (fun entry hentry => hin _ (h.mem_planned entry hentry)) (h.nodup_names hplanned)
  have hfiles : ∀ document ∈ written log, document.IsFile options above (document.fileIn options above) :=
    fun document hdocument => Document.isFile_fileIn (hcodes document hdocument) above
  refine ⟨⟨above, _, fun hne => (hleads hne).follow_parts, fun document hdocument => ?_, ?_, hgains⟩, ?_, ?_, ?_⟩
  · exact ⟨hmem hdocument, document.isOutputName options.target⟩
  · exact List.forall₂_map_right_iff.mpr (List.forall₂_same.mpr hfiles)
  · intro document hdocument error hfails place bytes hplace
    have hunwritten : document ∉ written log := fun hwritten => by
      obtain ⟨schema, hschema, -⟩ := hfiles document hwritten
      rw [hfails] at hschema
      cases hschema
    rcases hgains.kept _ (place_not_mem_of_not_mem hnames hmem hdocument hunwritten) with hkept | ⟨-, hmade⟩
    · rwa [← hkept]
    · rw [hmade] at hplace
      cases hplace
  · intro hok document hdocument
    obtain ⟨code, hcode, hread⟩ := h.read_eq_ok hin hplanned hok _ (List.mem_map_of_mem hdocument)
    obtain ⟨schema, hschema, rfl⟩ := Document.code_eq_ok_iff.mp hcode
    exact ⟨schema, hschema, hread⟩
  · exact fun hok log' after' h' => h.same hin hplanned hok h'

/-- **A run with an output directory writes the files of its documents, and no others.** If two documents have the same
output name, nothing is written. Otherwise the run is a course of the planned files, and every course of them is
orderly. -/
theorem writeAll_isOrderly (options : Options) (folder : Path) (documents : List Document) (fs : FileSystem) :
    (¬(documents.map (Document.outputName options.target)).Nodup →
      ∃ failure, writeAll options folder documents fs = .failed failure fs) ∧
    ((documents.map (Document.outputName options.target)).Nodup →
      (∃ log, IsCourse options (plan options folder documents) fs log (writeAll options folder documents fs).files ∧
        ((writeAll options folder documents fs).failure? = none ↔ Succeeds log)) ∧
      ∀ log after, IsCourse options (plan options folder documents) fs log after →
        Orderly options folder documents fs log after) := by
  rw [writeAll]
  refine ⟨fun hnames => ?_, fun hnames => ⟨?_, fun log after h => h.orderly hnames⟩⟩
  · cases hrepeated : repeated? [] (plan options folder documents) with
    | none => exact absurd (repeated?_plan_eq_none_iff.mp hrepeated) hnames
    | some again => exact ⟨_, rfl⟩
  · rw [repeated?_plan_eq_none_iff.mpr hnames]
    obtain ⟨log, omitted, hcarries, horder, hnone, hfailure⟩ :=
      exists_carries_carryOutAll (plan options folder documents) "" fs
    exact ⟨log, ⟨hcarries, omitted, .of_eq horder, hnone⟩, hfailure⟩

/-- Two documents that have schemas. -/
def twoDocuments : List Document :=
  [⟨⟨"x/a.json"⟩, .object [("k", .integer 1)]⟩, ⟨⟨"b.c.json"⟩, .object []⟩]

theorem writeAll_isOrderly_twoDocuments : (twoDocuments.map (Document.outputName .rust)).Nodup ∧
    (writeAll {} ⟨"out"⟩ twoDocuments desk).failure? = none ∧
    (writeAll {} ⟨"out"⟩ twoDocuments desk).files.read ⟨"out/a.rs"⟩ = .ok (moduleText wholeMethod) ∧
    (writeAll {} ⟨"out"⟩ twoDocuments desk).files.read ⟨"out/bc.rs"⟩ = .ok (moduleText "") := by
  have hnames : (twoDocuments.map (Document.outputName .rust)).Nodup := by decide
  have hnone : (writeAll {} ⟨"out"⟩ twoDocuments desk).failure? = none := by decide +kernel
  obtain ⟨⟨log, hcourse, hok⟩, horderly⟩ := (writeAll_isOrderly {} ⟨"out"⟩ twoDocuments desk).2 hnames
  obtain ⟨hfirst, hsecond⟩ := List.forall_mem_cons.mp ((horderly log _ hcourse).complete (hok.mp hnone))
  obtain ⟨first, hschema, hread⟩ := hfirst
  obtain ⟨second, hschema', hread'⟩ := List.forall_mem_singleton.mp hsecond
  have htext : first.source {} = moduleText wholeMethod := eq_of_toOption_map_eq hschema (by decide +kernel)
  have htext' : second.source {} = moduleText "" := eq_of_toOption_map_eq hschema' (by decide +kernel)
  have hpaths : twoDocuments.map (fun document => Path.child ⟨"out"⟩ (document.outputName .rust)) =
      [⟨"out/a.rs"⟩, ⟨"out/bc.rs"⟩] := by
    decide +kernel
  obtain ⟨hpath, hpath'⟩ := List.cons.inj hpaths
  rw [← hpath, ← (List.cons.inj hpath').1, ← htext, ← htext']
  exact ⟨hnames, hnone, hread, hread'⟩

end Plan

end CommandLine

end TypedSettings
