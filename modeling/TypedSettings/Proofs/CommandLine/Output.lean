import TypedSettings.CommandLine.Run
import TypedSettings.Proofs.FileSystem.Change

/-!
# Runs with one output

A run that does not generate into a directory makes one text of all its documents before it puts anything out
(`Request.run_cases`). The text is the source text of the schema of the only document, or the report with the records of
all their schemas (`Request.Gives`). So a run that fails prints nothing and leaves all files as they were, and one that
succeeds with an output file writes that file only, with the whole text (`Request.run_output`).
-/

namespace TypedSettings

open FileSystem

/-- Makes the directories that are missing above a path. -/
def FileSystem.makeParent (fs : FileSystem) (path : Path) : Except FileError Unit × FileSystem :=
  (path.parent?.map fs.makeDirectories).getD (.ok (), fs)

theorem FileSystem.makeParent_gains {fs after : FileSystem} {path : Path} {result : Except FileError Unit}
    (h : fs.makeParent path = (result, after)) : Gains fs [] after := by
  unfold makeParent at h
  cases hparent : path.parent? with
  | none =>
    rw [hparent] at h
    cases h
    exact .refl fs
  | some parent =>
    rw [hparent] at h
    exact makeDirectories_gains h

/-- Directories above a path that can be made are there, and are not made again in a tree that has all that is there. -/
theorem FileSystem.makeParent_again {fs after later : FileSystem} {path : Path}
    (h : fs.makeParent path = (.ok (), after)) (hlater : Extends after later) :
    later.makeParent path = (.ok (), later) := by
  unfold makeParent at h ⊢
  cases hparent : path.parent? with
  | none => rfl
  | some parent =>
    rw [hparent] at h
    exact makeDirectories_again h hlater

namespace CommandLine

/-! ## Storing a text -/

theorem store_eq_ok_iff {fs after : FileSystem} {path : Path} {text : String} :
    store path text fs = (.ok (), after) ↔ ∃ made above name, fs.makeParent path = (.ok (), made) ∧
      made.CanWrite path above name ∧
      after = { made with root := made.root.put (above ++ [name]) (.file text.toUTF8) } := by
  rw [store, ← FileSystem.makeParent]
  constructor
  · intro h
    split at h
    · cases h
    · rename_i made hmade
      split at h
      · cases h
      · rename_i written hwritten
        cases h
        obtain ⟨above, name, hcan, hafter⟩ := write_eq_ok_iff.mp hwritten
        exact ⟨made, above, name, hmade, hcan, hafter⟩
  · rintro ⟨made, above, name, hmade, hcan, rfl⟩
    rw [hmade]
    dsimp only
    rw [write_eq_ok_iff.mpr ⟨above, name, hcan, rfl⟩]

/-- A text that cannot be stored leaves all files as they were. -/
theorem store_error_gains {fs after : FileSystem} {path : Path} {text : String} {failure : Failure}
    (h : store path text fs = (.error failure, after)) : Gains fs [] after := by
  rw [store, ← FileSystem.makeParent] at h
  split at h
  · rename_i made hmade
    cases h
    exact makeParent_gains hmade
  · rename_i made hmade
    split at h
    · cases h
      exact makeParent_gains hmade
    · cases h

/-- A text that is stored stands where the path leads, and no other file is changed. -/
theorem store_ok_gains {fs after : FileSystem} {path : Path} {text : String}
    (h : store path text fs = (.ok (), after)) :
    ∃ place, Gains fs [(place, text.toUTF8)] after ∧ after.follow (after.start path) path.parts = .ok place ∧
      after.read path = .ok text := by
  obtain ⟨made, above, name, hmade, hcan, rfl⟩ := store_eq_ok_iff.mp h
  have hwrites := hcan.writes text.toUTF8
  have hplace := hwrites.written _ List.mem_cons_self
  have hfollow := hcan.follow hwrites.gains.extends (Option.isSome_of_mem hplace)
  exact ⟨above ++ [name], (makeParent_gains hmade).trans hwrites.gains nofun, hfollow,
    read_eq_ok hcan.length hfollow hplace⟩

/-! ## Runs -/

/-- Where the one text of a job goes. -/
def Job.output? : Job → Option Output
  | .generate output => some output
  | .generateInto _ => none
  | .inspect output => some output

/-- The entry of a document in a report: the record of its schema, under its path. -/
def Document.IsEntry (options : Options) (document : Document) (entry : String × Value) : Prop :=
  ∃ schema, Schema.ofValue options document.value = .ok schema ∧ entry = (document.source.text, schema.record)

/-- The text that a request asks for: the source text of the schema of its only document, or the report with an entry
for each of its documents. -/
inductive Request.Gives (request : Request) (fs : FileSystem) : String → Prop
  | code {output : Output} {options : Options} {document : Document} {schema : Schema} :
    request.job = .generate output → request.options fs = .ok options → request.documents fs = .ok [document] →
    Schema.ofValue options document.value = .ok schema → Gives request fs (schema.source options)
  | report {output : Output} {options : Options} {documents : List Document} {entries : List (String × Value)} :
    request.job = .inspect output → request.options fs = .ok options → request.documents fs = .ok documents →
    List.Forall₂ (Document.IsEntry options) documents entries → Gives request fs (Value.ofMembers entries).pretty

/-- The code for a document is the source text of the schema of its value. -/
theorem Document.code_eq_ok_iff {options : Options} {document : Document} {code : String} :
    document.code options = .ok code ↔
      ∃ schema, Schema.ofValue options document.value = .ok schema ∧ code = schema.source options := by
  rw [Document.code, bind_eq_ok]
  constructor
  · rintro ⟨schema, hschema, hcode⟩
    exact ⟨schema, mapError_eq_ok.mp hschema, (Except.ok.inj hcode).symm⟩
  · rintro ⟨schema, hschema, rfl⟩
    exact ⟨schema, mapError_eq_ok.mpr hschema, rfl⟩

/-- A report has one entry for every document. -/
theorem inspection_eq_ok {options : Options} {documents : List Document} {report : Value}
    (h : inspection options documents = .ok report) :
    ∃ entries, List.Forall₂ (Document.IsEntry options) documents entries ∧ report = .ofMembers entries := by
  obtain ⟨entries, hentries, hreport⟩ := bind_eq_ok.mp h
  refine ⟨entries, (mapM_eq_ok_iff.mp hentries).imp fun document entry hentry => ?_, (Except.ok.inj hreport).symm⟩
  obtain ⟨schema, hschema, heq⟩ := bind_eq_ok.mp hentry
  exact ⟨schema, mapError_eq_ok.mp hschema, (Except.ok.inj heq).symm⟩

section Run

variable {request : Request} {fs : FileSystem} {output : Output}

theorem singleCode_eq_ok {options : Options} {documents : List Document} {source : Path} {code : String}
    (h : singleCode options documents = .ok (source, code)) :
    ∃ document, documents = [document] ∧ document.code options = .ok code := by
  unfold singleCode at h
  split at h
  · rename_i document
    obtain ⟨_, hcode, heq⟩ := bind_eq_ok.mp h
    cases heq
    exact ⟨document, rfl, hcode⟩
  · cases h

/-- A run fails before it puts anything out, or it puts out all that it was asked for. -/
theorem Request.run_cases (hjob : request.job.output? = some output) (hrun : request.noOp = false) :
    (∃ failure, request.run fs = .failed failure fs) ∨
      ∃ text lineEnd line, request.Gives fs text ∧ request.run fs = emit output text lineEnd line fs := by
  rw [Request.run, hrun, if_neg Bool.false_ne_true]
  cases hoptions : request.options fs with
  | error failure => exact Or.inl ⟨failure, rfl⟩
  | ok options =>
    cases hdocuments : request.documents fs with
    | error failure => exact Or.inl ⟨failure, rfl⟩
    | ok documents =>
      dsimp only
      cases hkind : request.job with
      | generateInto folder =>
        rw [hkind] at hjob
        cases hjob
      | generate out =>
        obtain rfl : out = output := by rw [hkind] at hjob; exact Option.some.inj hjob
        cases hcode : singleCode options documents with
        | error failure => exact Or.inl ⟨failure, by rw [runJob, hcode]⟩
        | ok result =>
          obtain ⟨source, code⟩ := result
          obtain ⟨document, rfl, hdocument⟩ := singleCode_eq_ok hcode
          obtain ⟨schema, hschema, rfl⟩ := Document.code_eq_ok_iff.mp hdocument
          exact Or.inr ⟨_, _, _, .code hkind hoptions hdocuments hschema, by rw [runJob, hcode]⟩
      | inspect out =>
        obtain rfl : out = output := by rw [hkind] at hjob; exact Option.some.inj hjob
        cases hreport : inspection options documents with
        | error failure => exact Or.inl ⟨failure, by rw [runJob, hreport]⟩
        | ok report =>
          obtain ⟨entries, hentries, rfl⟩ := inspection_eq_ok hreport
          exact Or.inr ⟨_, _, _, .report hkind hoptions hdocuments hentries, by rw [runJob, hreport]⟩

/-- **A run with one output puts it out whole or not at all.** If the run fails, nothing is printed and no file is
created or changed. If it succeeds with an output file, the only file written is that one, it holds the whole text, and
nothing is printed. -/
theorem Request.run_output (request : Request) (fs : FileSystem) {output : Output}
    (hjob : request.job.output? = some output) :
    ((request.run fs).failure?.isSome → (request.run fs).stdout = "" ∧ Gains fs [] (request.run fs).files) ∧
    ∀ path, output = .file path → request.noOp = false → (request.run fs).failure? = none →
      (request.run fs).stdout = "" ∧ ∃ place text, request.Gives fs text ∧
        Gains fs [(place, text.toUTF8)] (request.run fs).files ∧
        (request.run fs).files.follow (fs.start path) path.parts = .ok place ∧
        (request.run fs).files.read path = .ok text := by
  cases hrun : request.noOp with
  | true =>
    have hshown : request.run fs = ⟨none, "", request.dump, fs⟩ := by rw [Request.run, hrun, if_pos rfl]
    rw [hshown]
    exact ⟨nofun, nofun⟩
  | false =>
    rcases request.run_cases hjob hrun with ⟨failure, hfailed⟩ | ⟨text, lineEnd, line, hgives, hemit⟩
    · rw [hfailed]
      exact ⟨fun _ => ⟨rfl, .refl fs⟩, nofun⟩
    · rw [hemit]
      cases output with
      | screen => exact ⟨nofun, nofun⟩
      | file path =>
        rw [emit]
        match hstore : store path text fs with
        | (.error failure, after) => exact ⟨fun _ => ⟨rfl, store_error_gains hstore⟩, nofun⟩
        | (.ok (), after) =>
          refine ⟨nofun, fun out hout _ _ => ⟨rfl, ?_⟩⟩
          obtain rfl := Output.file.inj hout
          obtain ⟨place, hgains, hfollow, hread⟩ := store_ok_gains hstore
          rw [hgains.extends.start_eq] at hfollow
          exact ⟨place, text, hgives, hgains, hfollow, hread⟩

end Run

/-- A directory with a document that has code and one that has none. -/
def desk : FileSystem :=
  ⟨.directory [("a.json", .file "\x7b\"k\": 1\x7d".toUTF8), ("b.json", .file "[1]".toUTF8)], []⟩

/-- The request for the code of one input in a file. -/
def Request.toFile (input : String) (output : Path) : Request where
  job := .generate (.file output)
  pointer := none
  inputs := [input]
  optionsFile := none
  target := none
  enclosing := none
  rootType := none
  onCollision := none
  onNull := none
  noOp := false
  verbosity := 0
  quiet := false

/-- The module for an object without nested ones, whose struct has the given methods behind the one that makes it. -/
def moduleText (methods : String) : String :=
  "// @generated by json-settings-gen. Do not edit.\n" ++
  "\n" ++
  "pub mod app_settings \x7b\n" ++
  "    #![allow(dead_code, non_camel_case_types, clippy::all)]\n" ++
  "\n" ++
  "    /// Colon-addressed configuration source the accessors read from.\n" ++
  "    pub trait ConfigProvider \x7b\n" ++
  "        /// Raw value at `path`, if set.\n" ++
  "        fn get(&self, path: &str) -> Option<String>;\n" ++
  "\n" ++
  "        /// Values of the direct children of `path`, in order. Empty if unset.\n" ++
  "        fn children(&self, path: &str) -> Vec<String>;\n" ++
  "    \x7d\n" ++
  "\n" ++
  "    /// Typed view over the whole configuration document.\n" ++
  "    #[derive(Clone, Copy)]\n" ++
  "    pub struct AppSettings<'a> \x7b\n" ++
  "        provider: &'a dyn ConfigProvider,\n" ++
  "    \x7d\n" ++
  "\n" ++
  "    impl<'a> AppSettings<'a> \x7b\n" ++
  "        pub fn new(provider: &'a dyn ConfigProvider) -> Self \x7b\n" ++
  "            Self \x7b provider \x7d\n" ++
  "        \x7d\n" ++
  methods ++
  "    \x7d\n" ++
  "\x7d\n"

/-- The method for a whole number under the key `k`. -/
def wholeMethod : String :=
  "\n" ++
  "        /// Configuration key: \"k\"\n" ++
  "        pub fn k(&self) -> i32 \x7b\n" ++
  "            self.provider.get(\"k\").and_then(|v| v.trim().parse().ok()).unwrap_or(0)\n" ++
  "        \x7d\n"

theorem Request.run_output_desk :
    (((toFile "b.json" ⟨"new/b.rs"⟩).run desk).stdout = "" ∧
      Gains desk [] ((toFile "b.json" ⟨"new/b.rs"⟩).run desk).files) ∧
    ((toFile "a.json" ⟨"new/a.rs"⟩).run desk).stdout = "" ∧ ∃ place,
      Gains desk [(place, (moduleText wholeMethod).toUTF8)] ((toFile "a.json" ⟨"new/a.rs"⟩).run desk).files ∧
      ((toFile "a.json" ⟨"new/a.rs"⟩).run desk).files.follow (desk.start ⟨"new/a.rs"⟩) ["new", "a.rs"] = .ok place ∧
      ((toFile "a.json" ⟨"new/a.rs"⟩).run desk).files.read ⟨"new/a.rs"⟩ = .ok (moduleText wholeMethod) := by
  refine ⟨((toFile "b.json" ⟨"new/b.rs"⟩).run_output desk rfl).1 (by decide +kernel), ?_⟩
  obtain ⟨hstdout, place, text, hgives, hgains, hfollow, hread⟩ :=
    ((toFile "a.json" ⟨"new/a.rs"⟩).run_output desk rfl).2 _ rfl rfl (by decide +kernel)
  have htext : (((toFile "a.json" ⟨"new/a.rs"⟩).documents desk).toOption.bind fun documents =>
      documents.head?.bind fun document => (Schema.ofValue {} document.value).toOption.map (Schema.source {})) =
        some (moduleText wholeMethod) := by
    decide +kernel
  cases hgives with
  | report hjob => cases hjob
  | @code _ options document schema _ hoptions hdocuments hschema =>
    obtain rfl : options = {} := (Except.ok.inj hoptions).symm
    rw [hdocuments] at htext
    have hsource : schema.source {} = moduleText wholeMethod :=
      Option.some.inj ((congrArg (·.toOption.map (Schema.source {})) hschema).symm.trans htext)
    rw [hsource] at hgains hread
    exact ⟨hstdout, place, hgains, hfollow, hread⟩

end CommandLine

end TypedSettings
