import Mathlib.Data.List.Nodup
import TypedSettings.Proofs.Options.Reading

/-!
# Settings made and settings read

Options are told by the settings that they have, one for every field (`Options.ext_settingOf`). Making settings of
distinct fields gives the options that have these settings and the default in every other field (`Options.Sets`), in
whatever order the settings are made (`setAll_perm`).

So what is read of a text are the settings that it describes, whether they are written as an object in any order or as a
list, and an object with a field twice or a field that is not known is refused (`ofJson?_sets`).
-/

namespace TypedSettings

namespace Options

variable {options options' : Options} {setting : Setting} {settings : List Setting} {field : Field}

/-! ## The settings of options -/

/-- The setting that options have for a field. -/
def settingOf (options : Options) : Field → Setting
  | .enclosing => .enclosing options.enclosing
  | .rootType => .rootType options.rootType
  | .target => .target options.target
  | .onCollision => .onCollision options.onCollision
  | .onNull => .onNull options.onNull
  | .providerTrait => .providerTrait options.providerTrait

/-- Options that have the same settings are the same. -/
theorem ext_settingOf (h : ∀ field, options.settingOf field = options'.settingOf field) : options = options' := by
  obtain ⟨enclosing, rootType, target, onCollision, onNull, providerTrait⟩ := options
  obtain ⟨enclosing', rootType', target', onCollision', onNull', providerTrait'⟩ := options'
  cases h .enclosing
  cases h .rootType
  cases h .target
  cases h .onCollision
  cases h .onNull
  cases h .providerTrait
  rfl

@[simp] theorem settingOf_set_self : (options.set setting).settingOf setting.field = setting := by
  cases setting <;> rfl

theorem settingOf_set_of_ne (h : field ≠ setting.field) :
    (options.set setting).settingOf field = options.settingOf field := by
  cases setting <;> cases field
  all_goals first | rfl | exact absurd rfl h

/-! ## Settings made one after the other -/

/-- Settings of other fields leave a field as it is. -/
theorem settingOf_setAll_of_notMem (h : field ∉ settings.map Setting.field) :
    (options.setAll settings).settingOf field = options.settingOf field := by
  induction settings generalizing options with
  | nil => rfl
  | cons made settings ih =>
    rw [List.map_cons, List.mem_cons, not_or] at h
    exact (ih h.2).trans (settingOf_set_of_ne h.1)

/-- Of settings with distinct fields every one is made. -/
theorem settingOf_setAll_of_mem (hdistinct : (settings.map Setting.field).Nodup) (h : setting ∈ settings) :
    (options.setAll settings).settingOf setting.field = setting := by
  induction settings generalizing options with
  | nil => cases h
  | cons made settings ih =>
    obtain ⟨hmade, hdistinct⟩ := List.nodup_cons.mp hdistinct
    rcases List.mem_cons.mp h with rfl | h
    · exact (settingOf_setAll_of_notMem hmade).trans settingOf_set_self
    · exact ih hdistinct h

/-- Options have the given settings, and the default in every other field. -/
structure Sets (options : Options) (settings : List Setting) : Prop where
  made : ∀ setting ∈ settings, options.settingOf setting.field = setting
  others : ∀ field ∉ settings.map Setting.field, options.settingOf field = ({} : Options).settingOf field

/-- There are no two options like that. -/
theorem Sets.unique (h : options.Sets settings) (h' : options'.Sets settings) : options = options' := by
  refine ext_settingOf fun field => ?_
  by_cases hmem : field ∈ settings.map Setting.field
  · obtain ⟨setting, hsetting, rfl⟩ := List.mem_map.mp hmem
    rw [h.made setting hsetting, h'.made setting hsetting]
  · rw [h.others field hmem, h'.others field hmem]

theorem sets_setAll (hdistinct : (settings.map Setting.field).Nodup) :
    (({} : Options).setAll settings).Sets settings where
  made _ hmem := settingOf_setAll_of_mem hdistinct hmem
  others _ hmem := settingOf_setAll_of_notMem hmem

/-- The order of settings with distinct fields does not matter. -/
theorem setAll_perm {order : List Setting} (hdistinct : (settings.map Setting.field).Nodup)
    (horder : order.Perm settings) : ({} : Options).setAll order = ({} : Options).setAll settings := by
  have hfields : (order.map Setting.field).Perm (settings.map Setting.field) := horder.map _
  have hsets := sets_setAll (hfields.nodup_iff.mpr hdistinct)
  refine Sets.unique ?_ (sets_setAll hdistinct)
  exact ⟨fun setting hmem => hsets.made setting (horder.mem_iff.mpr hmem),
    fun field hmem => hsets.others field fun h => hmem (hfields.mem_iff.mp h)⟩

/-! ## Settings read -/

section Read

open Json

variable {text : List Char} {tree : Tree} {members : List (String × Tree)}

/-- A text that says what describes settings is read as the options with these settings made. -/
theorem ofJson?_of_describes (htext : tree.IsText text) (h : Describes tree settings) :
    ofJson? text = .ok (({} : Options).setAll settings) := by
  obtain ⟨rest, hbegins, -⟩ := htext
  exact ofJson?_eq_ok_iff.mpr ⟨tree, settings, rest, h, hbegins, rfl⟩

/-- A text that says what describes no settings is refused. -/
theorem ofJson?_of_not_describes (htext : tree.IsText text) (h : ∀ settings, ¬Describes tree settings) :
    ∃ refusal, ofJson? text = .error refusal := by
  cases hread : ofJson? text with
  | error refusal => exact ⟨refusal, rfl⟩
  | ok options =>
    obtain ⟨rest, hbegins, -⟩ := htext
    obtain ⟨tree', settings, _, hdescribes, hbegins', -⟩ := ofJson?_eq_ok_iff.mp hread
    obtain ⟨rfl, -⟩ := hbegins.unique hbegins'
    exact absurd hdescribes (h settings)

/-- Members that make settings are named after their fields. -/
theorem names_of_makes (h : List.Forall₂ Makes members settings) :
    members.map Prod.fst = (settings.map Setting.field).map Field.name := by
  induction h with
  | nil => rfl
  | cons hmakes _ ih => rw [List.map_cons, List.map_cons, List.map_cons, ih, hmakes.1]

theorem name_injective : Function.Injective Field.name := by
  intro field field' h
  exact Option.some.inj ((Field.ofName?_eq_some_iff.mpr rfl).symm.trans (Field.ofName?_eq_some_iff.mpr h.symm))

/-- The members of an object that describes settings have distinct names, and each is the name of a field. -/
theorem Describes.names (h : Describes (.object members) settings) :
    (members.map Prod.fst).Nodup ∧ ∀ name ∈ members.map Prod.fst, ∃ field : Field, field.name = name := by
  cases h with
  | object hmakes hdistinct =>
    rw [names_of_makes hmakes]
    refine ⟨hdistinct.map name_injective, fun name hmem => ?_⟩
    obtain ⟨field, -, rfl⟩ := List.mem_map.mp hmem
    exact ⟨field, rfl⟩

/-- **What is read are the defaults with the settings that are written.** For settings of distinct fields there are
options that have them and the default in every other field, and all objects with these settings, in any order, are read
as these options, as is a list of their values if they are those of the first fields. An object in which a name comes
twice, or a name is not that of a field, is refused, wherever the name stands. -/
theorem ofJson?_sets {settings : List Setting} (hdistinct : (settings.map Setting.field).Nodup) :
    ∃ options : Options, options.Sets settings ∧
      (∀ order members text, order.Perm settings → List.Forall₂ Makes members order →
        (Tree.object members).IsText text → ofJson? text = .ok options) ∧
      (∀ elements text, settings.map Setting.field <+: Field.all → List.Forall₂ Holds elements settings →
        (Tree.array elements).IsText text → ofJson? text = .ok options) ∧
      ∀ members text, (Tree.object members).IsText text →
        (¬(members.map Prod.fst).Nodup ∨ ∃ name ∈ members.map Prod.fst, ∀ field : Field, field.name ≠ name) →
        ∃ refusal, ofJson? text = .error refusal := by
  refine ⟨({} : Options).setAll settings, sets_setAll hdistinct, ?_, ?_, ?_⟩
  · intro order members text horder hmakes htext
    have hfields : (order.map Setting.field).Perm (settings.map Setting.field) := horder.map _
    rw [ofJson?_of_describes htext (.object hmakes (hfields.nodup_iff.mpr hdistinct)), setAll_perm hdistinct horder]
  · intro elements text hfirst hholds htext
    exact ofJson?_of_describes htext (.array hholds hfirst)
  · intro members text htext hnames
    refine ofJson?_of_not_describes htext fun settings hdescribes => ?_
    obtain ⟨hdistinct, hfields⟩ := hdescribes.names
    rcases hnames with hnames | ⟨name, hmem, hname⟩
    · exact hnames hdistinct
    · obtain ⟨field, hfield⟩ := hfields name hmem
      exact hname field hfield

/-- Two settings as an object in another order and as a list, and an object in which a name comes twice. -/
theorem ofJson?_sets_names : ∃ options : Options, options.Sets [.enclosing "Café", .rootType "Bill"] ∧
    ofJson? "\x7b\"root_type\": \"Bill\", \"namespace\": \"Café\"\x7d".toList = .ok options ∧
    ofJson? "[\"Café\", \"Bill\"]".toList = .ok options ∧
    ∃ refusal, ofJson? "\x7b\"namespace\": \"Café\", \"namespace\": null\x7d".toList = .error refusal := by
  have hobject : (Tree.object [("root_type", .string "Bill"), ("namespace", .string "Café")]).IsText
      "\x7b\"root_type\": \"Bill\", \"namespace\": \"Café\"\x7d".toList := by
    have htext : skipBlanks "\x7b\"root_type\": \"Bill\", \"namespace\": \"Café\"\x7d".toList =
        '\x7b' :: '"' :: ("root_type".toList.flatMap writeChar ++ '"' :: ':' :: ' ' :: '"' ::
          ("Bill".toList.flatMap writeChar ++ '"' :: ',' :: ' ' :: '"' ::
            ("namespace".toList.flatMap writeChar ++ '"' :: ':' :: ' ' :: '"' ::
              ("Café".toList.flatMap writeChar ++ '"' :: ['\x7d'])))) := by decide
    refine ⟨[], .object htext (.first (member_writeChars _ (begins_writeChars _ _)) ?_), rfl⟩
    exact .later rfl (member_writeChars _ (begins_writeChars _ _)) (.close rfl)
  have harray : (Tree.array [.string "Café", .string "Bill"]).IsText "[\"Café\", \"Bill\"]".toList := by
    have htext : skipBlanks "[\"Café\", \"Bill\"]".toList = '[' :: '"' ::
        ("Café".toList.flatMap writeChar ++ '"' :: ',' :: ' ' :: '"' ::
          ("Bill".toList.flatMap writeChar ++ '"' :: [']'])) := by decide
    refine ⟨[], .array htext (.first (begins_writeChars _ _) ?_), rfl⟩
    exact .later rfl (begins_writeChars _ _) (.close rfl)
  have htwice : (Tree.object [("namespace", .string "Café"), ("namespace", .null)]).IsText
      "\x7b\"namespace\": \"Café\", \"namespace\": null\x7d".toList := by
    have htext : skipBlanks "\x7b\"namespace\": \"Café\", \"namespace\": null\x7d".toList =
        '\x7b' :: '"' :: ("namespace".toList.flatMap writeChar ++ '"' :: ':' :: ' ' :: '"' ::
          ("Café".toList.flatMap writeChar ++ '"' :: ',' :: ' ' :: '"' ::
            ("namespace".toList.flatMap writeChar ++ '"' :: ':' :: ' ' :: ("null".toList ++ ['\x7d'])))) := by decide
    refine ⟨[], .object htext (.first (member_writeChars _ (begins_writeChars _ _)) ?_), rfl⟩
    exact .later rfl (member_writeChars _ (.null rfl)) (.close rfl)
  have henclosing : Makes ("namespace", .string "Café") (.enclosing "Café") := ⟨rfl, .enclosing⟩
  have hrootType : Makes ("root_type", .string "Bill") (.rootType "Bill") := ⟨rfl, .rootType⟩
  obtain ⟨options, hsets, hread, hreadList, hrefused⟩ :=
    @ofJson?_sets [.enclosing "Café", .rootType "Bill"] (by decide)
  exact ⟨options, hsets, hread _ _ _ (.swap ..) (.cons hrootType (.cons henclosing .nil)) hobject,
    hreadList _ _ (by decide) (.cons .enclosing (.cons .rootType .nil)) harray,
    hrefused _ _ htwice (Or.inl (by decide))⟩

end Read

end Options

end TypedSettings
