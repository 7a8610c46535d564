import TypedSettings.Options.Reader
import TypedSettings.Proofs.Json.Grammar
import TypedSettings.Proofs.Json.Layout
import TypedSettings.Proofs.SideBySide

/-!
# What is read as options

A tree holds the value of a setting (`Holds`): a text, or a word for one of the field's values. A tree describes
settings (`Describes`) if it is an object with the settings under the names of their fields, no field twice, or a list
with the values of the first fields.

* The reader of settings takes a tree off the text that describes them, and it takes every such tree
  (`readsPart_readSettings_iff`). There is one lemma of this kind for every reader on the way.
* So a text is read as options exactly if it begins with a tree that describes them (`ofJson?_eq_ok_iff`).
-/

namespace TypedSettings

theorem Field.ofName?_eq_some_iff {name : String} {field : Field} :
    Field.ofName? name = some field ↔ field.name = name := by
  rw [Field.ofName?]
  constructor
  · intro h
    have hname := List.find?_some h
    exact eq_of_beq hname
  · rintro rfl
    cases field <;> decide

namespace Options

open Json

/-! ## Trees and settings -/

/-- A tree is a word for a value: the word alone, or an object with the word and a null. -/
inductive IsWordFor {α : Type} (words : List (String × α)) (a : α) : Tree → Prop
  | string {word : String} : words.lookup word = some a → IsWordFor words a (.string word)
  | object {word : String} : words.lookup word = some a → IsWordFor words a (.object [(word, .null)])

/-- A tree holds the value of a setting. -/
inductive Holds : Tree → Setting → Prop
  | enclosing {s : String} : Holds (.string s) (.enclosing s)
  | rootType {s : String} : Holds (.string s) (.rootType s)
  | target {tree : Tree} {target : Target} : IsWordFor Target.words target tree → Holds tree (.target target)
  | onCollision {tree : Tree} {policy : OnCollision} : IsWordFor OnCollision.words policy tree →
    Holds tree (.onCollision policy)
  | onNull {tree : Tree} {policy : OnNull} : IsWordFor OnNull.words policy tree → Holds tree (.onNull policy)
  | providerTrait {s : String} : Holds (.string s) (.providerTrait s)

/-- A member of an object makes a setting: it has the name of the field and holds the value. -/
def Makes (member : String × Tree) (setting : Setting) : Prop :=
  member.1 = setting.field.name ∧ Holds member.2 setting

/-- A tree describes settings. -/
inductive Describes : Tree → List Setting → Prop
  | object {members : List (String × Tree)} {settings : List Setting} : List.Forall₂ Makes members settings →
    (settings.map Setting.field).Nodup → Describes (.object members) settings
  | array {elements : List Tree} {settings : List Setting} : List.Forall₂ Holds elements settings →
    settings.map Setting.field <+: Field.all → Describes (.array elements) settings

/-! ## Readers -/

section Readers

variable {α : Type} {text rest : List Char}

/-- A reader takes a value off a text and leaves a rest. -/
def Reads (read : Except Fault (Taken α text)) (value : α) (rest : List Char) : Prop :=
  ∃ h, read = .ok ⟨value, rest, h⟩

/-- A reader takes a value off a text, with a character at least, and leaves a rest. -/
def ReadsPart (read : Except Fault (Part α text)) (value : α) (rest : List Char) : Prop :=
  ∃ h, read = .ok ⟨value, rest, h⟩

theorem reads_of_eq {read : Except Fault (Taken α text)} {taken : Taken α text} (h : read = .ok taken) :
    Reads read taken.value taken.rest := ⟨taken.le, h⟩

theorem readsPart_of_eq {read : Except Fault (Part α text)} {part : Part α text} (h : read = .ok part) :
    ReadsPart read part.value part.rest := ⟨part.lt, h⟩

theorem gives_of_mapError_eq {read : Except Json.Fault (Taken α text)} {f : Json.Fault → Fault} {taken : Taken α text}
    (h : read.mapError f = .ok taken) : Gives read taken.value taken.rest := gives_of_eq (mapError_eq_ok.mp h)

/-! ## Values -/

theorem readsPart_readText_iff {expected : Expected} {s : String} :
    ReadsPart (readText expected text) s rest ↔ ∃ body, skipBlanks text = '"' :: body ∧ Chars body s.toList rest := by
  unfold readText
  constructor
  · rintro ⟨_, h⟩
    split at h
    case h_2 body hmark =>
      split at h
      case h_1 taken htaken =>
        cases h
        exact ⟨body, hmark, gives_readString_iff.mp (gives_of_eq htaken)⟩
      all_goals cases h
    all_goals cases h
  · rintro ⟨body, hmark, hchars⟩
    split
    case h_2 hmark' =>
      cases hmark.symm.trans hmark'
      obtain ⟨_, hread⟩ := gives_readString_iff.mpr hchars
      simp only [hread]
      exact readsPart_of_eq rfl
    all_goals simp_all

theorem readsPart_readNull_iff :
    ReadsPart (readNull text) () rest ↔ skipBlanks text = 'n' :: (['u', 'l', 'l'] ++ rest) := by
  unfold readNull
  constructor
  · rintro ⟨_, h⟩
    split at h
    case h_2 behind hmark =>
      split at h
      case h_1 taken htaken =>
        cases h
        exact hmark.trans (congrArg _ (gives_readWord_iff.mp (gives_of_eq htaken)))
      all_goals cases h
    all_goals cases h
  · intro hmark
    split
    case h_2 hmark' =>
      cases hmark.symm.trans hmark'
      obtain ⟨_, hread⟩ := gives_readWord_iff.mpr (rfl : ['u', 'l', 'l'] ++ rest = ['u', 'l', 'l'] ++ rest)
      rw [hread]
      exact readsPart_of_eq rfl
    all_goals simp_all

theorem readsPart_readWordOf_iff {words : List (String × α)} {word : String} {a : α} :
    ReadsPart (readWordOf words text) (word, a) rest ↔
      (∃ body, skipBlanks text = '"' :: body ∧ Chars body word.toList rest) ∧ words.lookup word = some a := by
  rw [← @readsPart_readText_iff text rest .variantName word]
  constructor
  · rintro ⟨_, h⟩
    obtain ⟨part, hpart, h⟩ := bind_eq_ok.mp h
    split at h
    case h_1 hlookup =>
      cases h
      exact ⟨readsPart_of_eq hpart, hlookup⟩
    all_goals cases h
  · rintro ⟨⟨hlt, hread⟩, hlookup⟩
    refine ⟨hlt, bind_eq_ok.mpr ⟨_, hread, ?_⟩⟩
    simp only [hlookup]
    rfl

theorem reads_readVariantEnd_iff : Reads (readVariantEnd text) () rest ↔ skipBlanks text = '\x7d' :: rest := by
  unfold readVariantEnd
  constructor
  · rintro ⟨_, h⟩
    split at h <;> cases h
    assumption
  · intro h
    split
    case h_2 hmark =>
      cases h.symm.trans hmark
      exact reads_of_eq rfl
    all_goals simp_all

/-- A variant is read off a word for it. -/
theorem readsPart_readVariant_iff {words : List (String × α)} {a : α} :
    ReadsPart (readVariant words text) a rest ↔
      ∃ tree, IsWordFor words a tree ∧ Begins (skipBlanks text) tree rest := by
  unfold readVariant
  constructor
  · rintro ⟨_, h⟩
    split at h
    case h_2 body hmark =>
      obtain ⟨part, hpart, h⟩ := bind_eq_ok.mp h
      cases h
      obtain ⟨⟨body', hbody, hchars⟩, hlookup⟩ := readsPart_readWordOf_iff.mp (readsPart_of_eq hpart)
      exact ⟨_, .string hlookup, .string (hmark.trans hbody) hchars⟩
    case h_3 body hmark =>
      obtain ⟨word, hword, h⟩ := bind_eq_ok.mp h
      obtain ⟨colon, hcolon, h⟩ := bind_eq_ok.mp h
      obtain ⟨null, hnull, h⟩ := bind_eq_ok.mp h
      obtain ⟨brace, hbrace, h⟩ := bind_eq_ok.mp h
      cases h
      obtain ⟨⟨body', hbody, hchars⟩, hlookup⟩ := readsPart_readWordOf_iff.mp (readsPart_of_eq hword)
      have hcolon := gives_readColon_iff.mp (gives_of_mapError_eq hcolon)
      have hnull := readsPart_readNull_iff.mp (readsPart_of_eq (mapError_eq_ok.mp hnull))
      have hbrace := reads_readVariantEnd_iff.mp (reads_of_eq hbrace)
      exact ⟨_, .object hlookup, .object hmark (.first (.mk hbody hchars hcolon (.null hnull)) (.close hbrace))⟩
    all_goals cases h
  · rintro ⟨tree, htree, hbegins⟩
    cases htree with
    | string hlookup =>
      cases hbegins with
      | @string _ _ body _ hmark hchars =>
        split
        case h_2 body' hmark' =>
          cases hmark.symm.trans hmark'
          have hfront : skipBlanks ('"' :: body) = '"' :: body := rfl
          obtain ⟨_, hword⟩ := readsPart_readWordOf_iff.mpr ⟨⟨body, hfront, hchars⟩, hlookup⟩
          simp only [hword]
          exact readsPart_of_eq rfl
        all_goals simp_all
    | object hlookup =>
      cases hbegins with
      | object hmark hparts =>
        cases hparts with
        | first hmember hmore =>
        cases hmember with
        | mk hkey hchars hcolon hvalue =>
        cases hvalue with
        | null hnull =>
        cases hmore with
        | close hbrace =>
        split
        case h_3 hmark' =>
          cases hmark.symm.trans hmark'
          obtain ⟨_, hword⟩ := readsPart_readWordOf_iff.mpr ⟨⟨_, hkey, hchars⟩, hlookup⟩
          obtain ⟨_, hcolon⟩ := gives_readColon_iff.mpr hcolon
          obtain ⟨_, hnull⟩ := readsPart_readNull_iff.mpr hnull
          obtain ⟨_, hbrace⟩ := reads_readVariantEnd_iff.mpr hbrace
          simp only [hword, hcolon, hnull, hbrace, bind, Except.bind, Except.mapError]
          exact readsPart_of_eq rfl
        all_goals simp_all

/-! ## Settings -/

theorem begins_string_iff {s : String} :
    Begins text (.string s) rest ↔ ∃ body, text = '"' :: body ∧ Chars body s.toList rest := by
  constructor
  · intro h
    cases h with
    | string htext hchars => exact ⟨_, htext, hchars⟩
  · rintro ⟨body, htext, hchars⟩
    exact .string htext hchars

/-- A setting is read where its value is, if the trees that hold it are those of the value. -/
theorem readsPart_map_iff {read : Except Fault (Part α text)} {make : α → Setting} {field : Field}
    {setting : Setting} {P : α → Tree → Prop}
    (hread : ∀ a, ReadsPart read a rest ↔ ∃ tree, P a tree ∧ Begins (skipBlanks text) tree rest)
    (hholds : ∀ tree, setting.field = field ∧ Holds tree setting ↔ ∃ a, make a = setting ∧ P a tree) :
    ReadsPart (do return (← read).map make) setting rest ↔
      setting.field = field ∧ ∃ tree, Holds tree setting ∧ Begins (skipBlanks text) tree rest := by
  constructor
  · rintro ⟨_, h⟩
    obtain ⟨part, hpart, h⟩ := bind_eq_ok.mp h
    cases h
    obtain ⟨tree, htree, hbegins⟩ := (hread part.value).mp (readsPart_of_eq hpart)
    obtain ⟨hfield, htree⟩ := (hholds tree).mpr ⟨part.value, rfl, htree⟩
    exact ⟨hfield, tree, htree, hbegins⟩
  · rintro ⟨hfield, tree, htree, hbegins⟩
    obtain ⟨a, rfl, hvalue⟩ := (hholds tree).mp ⟨hfield, htree⟩
    obtain ⟨hlt, hread⟩ := (hread a).mpr ⟨tree, hvalue, hbegins⟩
    exact ⟨hlt, bind_eq_ok.mpr ⟨_, hread, rfl⟩⟩

/-- **The value of a field is read as the setting that it holds.** -/
theorem readsPart_readSetting_iff {field : Field} {setting : Setting} :
    ReadsPart (readSetting field text) setting rest ↔
      setting.field = field ∧ ∃ tree, Holds tree setting ∧ Begins (skipBlanks text) tree rest := by
  have hstring : ∀ s, ReadsPart (readText .text text) s rest ↔
      ∃ tree, tree = .string s ∧ Begins (skipBlanks text) tree rest := by
    intro s
    rw [readsPart_readText_iff, ← begins_string_iff, exists_eq_left]
  cases field
  case enclosing | rootType | providerTrait =>
    refine readsPart_map_iff hstring fun tree => ⟨?_, ?_⟩
    · rintro ⟨hfield, htree⟩
      cases htree <;> cases hfield
      exact ⟨_, rfl, rfl⟩
    · rintro ⟨s, rfl, rfl⟩
      exact ⟨rfl, by constructor⟩
  case target | onCollision | onNull =>
    refine readsPart_map_iff (fun _ => readsPart_readVariant_iff) fun tree => ⟨?_, ?_⟩
    · rintro ⟨hfield, htree⟩
      cases htree <;> cases hfield
      exact ⟨_, rfl, ‹_›⟩
    · rintro ⟨a, rfl, htree⟩
      exact ⟨rfl, by constructor; exact htree⟩

/-- A field is read off its name, unless it is among those that are done. -/
theorem reads_readField_iff {done : List Setting} {field : Field} :
    Reads (readField done text) field rest ↔
      Chars text field.name.toList rest ∧ field ∉ done.map Setting.field := by
  have hdone : ∀ field : Field, done.any (·.field == field) = true ↔ field ∈ done.map Setting.field := by
    intro field
    simp [List.any_eq_true, List.mem_map]
  constructor
  · rintro ⟨_, h⟩
    obtain ⟨key, hkey, h⟩ := bind_eq_ok.mp h
    split at h
    case h_1 => cases h
    case h_2 found hfound =>
      split_ifs at h with hmem
      cases h
      have hchars := gives_readString_iff.mp (gives_of_mapError_eq hkey)
      rw [← Field.ofName?_eq_some_iff.mp hfound] at hchars
      exact ⟨hchars, mt (hdone _).mpr hmem⟩
  · rintro ⟨hchars, hmem⟩
    obtain ⟨hle, hread⟩ := gives_readString_iff.mpr hchars
    refine ⟨hle, bind_eq_ok.mpr ⟨_, mapError_eq_ok.mpr hread, ?_⟩⟩
    have hname : Field.ofName? field.name = some field := Field.ofName?_eq_some_iff.mpr rfl
    simp only [hname]
    rw [if_neg (mt (hdone field).mp hmem)]
    rfl

/-! ## Objects and lists -/

/-- A text begins with a member that makes a setting. -/
def BeginsMember (text : List Char) (setting : Setting) (rest : List Char) : Prop :=
  ∃ member, Makes member setting ∧ Json.Member Begins text member rest

/-- A text begins with a tree that holds the value of a setting. -/
def BeginsElement (text : List Char) (setting : Setting) (rest : List Char) : Prop :=
  ∃ tree, Holds tree setting ∧ Begins text tree rest

/-- From behind an opening quote, a member is read piece by piece. -/
theorem beginsMember_quote_iff {setting : Setting} : BeginsMember ('"' :: text) setting rest ↔
    ∃ behind start, Chars text setting.field.name.toList behind ∧ skipBlanks behind = ':' :: start ∧
      BeginsElement (skipBlanks start) setting rest := by
  constructor
  · rintro ⟨⟨key, tree⟩, ⟨rfl, hholds⟩, hmember⟩
    cases hmember with
    | mk htext hchars hcolon hvalue =>
      cases htext
      exact ⟨_, _, hchars, hcolon, tree, hholds, hvalue⟩
  · rintro ⟨behind, start, hchars, hcolon, tree, hholds, hvalue⟩
    exact ⟨(setting.field.name, tree), ⟨rfl, hholds⟩, .mk rfl hchars hcolon hvalue⟩

/-- An object is read to its closing brace, or one member is read and then the object behind it, with the setting of the
member among those that are done. -/
theorem reads_readObject_iff {done settings : List Setting} {first : Bool} :
    Reads (readObject done first text) settings rest ↔
      (settings = done ∧ Gives (nextKey first text) .close rest) ∨
        ∃ start setting behind, Gives (nextKey first text) .part start ∧ BeginsMember ('"' :: start) setting behind ∧
          setting.field ∉ done.map Setting.field ∧
          Reads (readObject (done ++ [setting]) false behind) settings rest := by
  rw [readObject]
  constructor
  · rintro ⟨_, h⟩
    obtain ⟨next, hnext, h⟩ := bind_eq_ok.mp h
    have hnext := gives_of_mapError_eq hnext
    split at h
    case h_1 hclose =>
      cases h
      exact Or.inl ⟨rfl, hclose ▸ hnext⟩
    case h_2 hpart =>
      obtain ⟨field, hfield, h⟩ := bind_eq_ok.mp h
      obtain ⟨colon, hcolon, h⟩ := bind_eq_ok.mp h
      obtain ⟨setting, hsetting, h⟩ := bind_eq_ok.mp h
      obtain ⟨more, hmore, h⟩ := bind_eq_ok.mp h
      cases h
      obtain ⟨hchars, hmem⟩ := reads_readField_iff.mp (reads_of_eq hfield)
      obtain ⟨hvalue, helement⟩ := readsPart_readSetting_iff.mp (readsPart_of_eq (mapError_eq_ok.mp hsetting))
      have hmember := beginsMember_quote_iff.mpr
        ⟨_, _, hvalue ▸ hchars, gives_readColon_iff.mp (gives_of_mapError_eq hcolon), helement⟩
      exact Or.inr ⟨_, _, _, hpart ▸ hnext, hmember, hvalue ▸ hmem, reads_of_eq hmore⟩
  · rintro (⟨rfl, hle, hnext⟩ | ⟨start, setting, behind, ⟨hle, hnext⟩, hmember, hmem, hle', hmore⟩)
    · exact ⟨hle, bind_eq_ok.mpr ⟨_, mapError_eq_ok.mpr hnext, rfl⟩⟩
    · obtain ⟨behindKey, value, hchars, hcolon, helement⟩ := beginsMember_quote_iff.mp hmember
      obtain ⟨hlefield, hfield⟩ := reads_readField_iff.mpr ⟨hchars, hmem⟩
      obtain ⟨hlecolon, hcolon⟩ := gives_readColon_iff.mpr hcolon
      obtain ⟨hltvalue, hvalue⟩ := readsPart_readSetting_iff.mpr ⟨rfl, helement⟩
      refine ⟨by omega, bind_eq_ok.mpr ⟨_, mapError_eq_ok.mpr hnext, ?_⟩⟩
      refine bind_eq_ok.mpr ⟨_, hfield, bind_eq_ok.mpr ⟨_, mapError_eq_ok.mpr hcolon, ?_⟩⟩
      exact bind_eq_ok.mpr ⟨_, mapError_eq_ok.mpr hvalue, bind_eq_ok.mpr ⟨_, hmore, rfl⟩⟩

theorem BeginsMember.length_lt {setting : Setting} (h : BeginsMember ('"' :: text) setting rest) :
    rest.length < text.length := by
  obtain ⟨behind, start, hchars, hcolon, helement⟩ := beginsMember_quote_iff.mp h
  obtain ⟨hle, -⟩ := gives_readString_iff.mpr hchars
  obtain ⟨hle', -⟩ := gives_readColon_iff.mpr hcolon
  obtain ⟨hlt, -⟩ := readsPart_readSetting_iff.mpr ⟨rfl, helement⟩
  omega

theorem BeginsMember.exists_quote {setting : Setting} (h : BeginsMember text setting rest) :
    ∃ start, text = '"' :: start := by
  obtain ⟨_, -, hmember⟩ := h
  cases hmember with
  | mk htext _ _ _ => exact ⟨_, htext⟩

theorem parts_members_nil_iff {first : Bool} :
    Parts '\x7d' BeginsMember first text [] rest ↔ Gives (nextKey first text) .close rest := by
  rw [gives_nextKey_close_iff]
  constructor
  · intro h
    cases h with
    | close hclose => exact hclose
  · exact .close

theorem parts_members_cons_iff {first : Bool} {setting : Setting} {settings : List Setting} :
    Parts '\x7d' BeginsMember first text (setting :: settings) rest ↔
      ∃ start behind, Gives (nextKey first text) .part start ∧ BeginsMember ('"' :: start) setting behind ∧
        Parts '\x7d' BeginsMember false behind settings rest := by
  constructor
  · intro h
    cases h with
    | first hmember hmore =>
      obtain ⟨start, hquote⟩ := hmember.exists_quote
      exact ⟨start, _, gives_nextKey_true_iff.mpr hquote, hquote ▸ hmember, hmore⟩
    | later hcomma hmember hmore =>
      obtain ⟨start, hquote⟩ := hmember.exists_quote
      exact ⟨start, _, gives_nextKey_false_iff.mpr ⟨_, hcomma, hquote⟩, hquote ▸ hmember, hmore⟩
  · rintro ⟨start, behind, hnext, hmember, hmore⟩
    cases first with
    | true => exact .first (gives_nextKey_true_iff.mp hnext ▸ hmember) hmore
    | false =>
      obtain ⟨more, hcomma, hquote⟩ := gives_nextKey_false_iff.mp hnext
      exact .later hcomma (hquote ▸ hmember) hmore

/-- What is read of an object are the members up to its closing brace, behind the settings that are done. -/
theorem Reads.parts {done settings : List Setting} {first : Bool} (hdone : (done.map Setting.field).Nodup)
    (h : Reads (readObject done first text) settings rest) :
    ∃ new, settings = done ++ new ∧ Parts '\x7d' BeginsMember first text new rest ∧
      (settings.map Setting.field).Nodup := by
  -- The reader goes on with what the member leaves of the text, and every member takes a character at least.
  induction hlength : text.length using Nat.strong_induction_on generalizing text done first with
  | h length ih =>
    rcases reads_readObject_iff.mp h with ⟨rfl, hclose⟩ | ⟨start, setting, behind, hnext, hmember, hmem, hmore⟩
    · exact ⟨[], (List.append_nil _).symm, parts_members_nil_iff.mpr hclose, hdone⟩
    · have hlt : behind.length < length := by
        obtain ⟨hle, -⟩ := hnext
        exact hlength ▸ Nat.lt_of_lt_of_le hmember.length_lt hle
      have hdistinct : ((done ++ [setting]).map Setting.field).Nodup := by
        rw [List.map_append, List.map_singleton]
        exact List.nodup_append.mpr ⟨hdone, List.nodup_singleton _, by simpa using hmem⟩
      obtain ⟨new, rfl, hparts, hnodup⟩ := ih _ hlt hdistinct hmore rfl
      exact ⟨setting :: new, List.append_assoc .., parts_members_cons_iff.mpr ⟨_, _, hnext, hmember, hparts⟩, hnodup⟩

/-- Members up to a closing brace are read as an object, if no field comes twice. -/
theorem Reads.of_parts : ∀ {new done : List Setting} {first : Bool} {text : List Char},
    Parts '\x7d' BeginsMember first text new rest → ((done ++ new).map Setting.field).Nodup →
      Reads (readObject done first text) (done ++ new) rest
  | [], done, first, text, h, _ =>
    reads_readObject_iff.mpr (Or.inl ⟨List.append_nil _, parts_members_nil_iff.mp h⟩)
  | setting :: new, done, first, text, h, hnodup => by
    obtain ⟨start, behind, hnext, hmember, hmore⟩ := parts_members_cons_iff.mp h
    have hmem : setting.field ∉ done.map Setting.field := by
      intro hmem
      rw [List.map_append, List.map_cons, List.nodup_append] at hnodup
      exact hnodup.2.2 _ hmem _ List.mem_cons_self rfl
    rw [List.append_cons] at hnodup ⊢
    exact reads_readObject_iff.mpr (Or.inr ⟨start, setting, behind, hnext, hmember, hmem, Reads.of_parts hmore hnodup⟩)

theorem reads_readListEnd_iff : Reads (readListEnd text) () rest ↔ skipBlanks text = ']' :: rest := by
  unfold readListEnd
  constructor
  · rintro ⟨_, h⟩
    split at h <;> cases h
    assumption
  · intro h
    split
    case h_2 hmark =>
      cases h.symm.trans hmark
      exact reads_of_eq rfl
    all_goals simp_all

theorem parts_elements_nil_iff {first : Bool} :
    Parts ']' BeginsElement first text [] rest ↔ skipBlanks text = ']' :: rest := by
  constructor
  · intro h
    cases h with
    | close hclose => exact hclose
  · exact .close

theorem parts_elements_cons_iff {first : Bool} {setting : Setting} {settings : List Setting} :
    Parts ']' BeginsElement first text (setting :: settings) rest ↔
      ∃ start behind, Gives (nextElement first text) .part start ∧ BeginsElement (skipBlanks start) setting behind ∧
        Parts ']' BeginsElement false behind settings rest := by
  have hhead : ∀ {text behind : List Char}, BeginsElement text setting behind → ∃ c cs, text = c :: cs ∧ c ≠ ']' := by
    rintro text behind ⟨tree, -, hbegins⟩
    obtain ⟨c, cs, htext, -, hc⟩ := hbegins.head
    exact ⟨c, cs, htext, hc⟩
  constructor
  · intro h
    cases h with
    | @first _ behind _ _ _ helement hmore =>
      refine ⟨skipBlanks text, behind, gives_nextElement_true_iff.mpr ⟨rfl, hhead helement⟩, ?_, hmore⟩
      rwa [skipBlanks_skipBlanks]
    | @later _ more behind _ _ _ hcomma helement hmore =>
      refine ⟨skipBlanks more, behind, gives_nextElement_false_iff.mpr ⟨more, hcomma, rfl, hhead helement⟩, ?_, hmore⟩
      rwa [skipBlanks_skipBlanks]
  · rintro ⟨start, behind, hnext, helement, hmore⟩
    cases first with
    | true =>
      obtain ⟨rfl, -⟩ := gives_nextElement_true_iff.mp hnext
      rw [skipBlanks_skipBlanks] at helement
      exact .first helement hmore
    | false =>
      obtain ⟨more, hcomma, rfl, -⟩ := gives_nextElement_false_iff.mp hnext
      rw [skipBlanks_skipBlanks] at helement
      exact .later hcomma helement hmore

/-- **The values of a list are read as settings of the first fields**, up to its closing bracket. -/
theorem reads_readList_iff : ∀ {fields : List Field} {i : Nat} {text rest : List Char} {settings : List Setting},
    Reads (readList fields i text) settings rest ↔
      settings.map Setting.field <+: fields ∧ Parts ']' BeginsElement (i == 0) text settings rest
  | [], i, text, rest, settings => by
    rw [List.prefix_nil, List.map_eq_nil_iff]
    constructor
    · rintro ⟨_, h⟩
      obtain ⟨taken, htaken, h⟩ := bind_eq_ok.mp h
      cases h
      exact ⟨rfl, parts_elements_nil_iff.mpr (reads_readListEnd_iff.mp (reads_of_eq htaken))⟩
    · rintro ⟨rfl, hparts⟩
      obtain ⟨hle, hread⟩ := reads_readListEnd_iff.mpr (parts_elements_nil_iff.mp hparts)
      exact ⟨hle, bind_eq_ok.mpr ⟨_, hread, rfl⟩⟩
  | field :: fields, i, text, rest, settings => by
    rw [readList]
    constructor
    · rintro ⟨_, h⟩
      obtain ⟨next, hnext, h⟩ := bind_eq_ok.mp h
      have hnext := gives_of_mapError_eq hnext
      split at h
      case h_1 hclose =>
        cases h
        rw [hclose, gives_nextElement_close_iff] at hnext
        exact ⟨List.nil_prefix, parts_elements_nil_iff.mpr hnext⟩
      case h_2 hpart =>
        obtain ⟨setting, hsetting, h⟩ := bind_eq_ok.mp h
        obtain ⟨more, hmore, h⟩ := bind_eq_ok.mp h
        cases h
        obtain ⟨hfield, helement⟩ := readsPart_readSetting_iff.mp (readsPart_of_eq (mapError_eq_ok.mp hsetting))
        obtain ⟨hfirst, hparts⟩ := reads_readList_iff.mp (reads_of_eq hmore)
        rw [hpart] at hnext
        exact ⟨List.cons_prefix_cons.mpr ⟨hfield, hfirst⟩,
          parts_elements_cons_iff.mpr ⟨_, _, hnext, helement, hparts⟩⟩
    · rintro ⟨hfirst, hparts⟩
      cases settings with
      | nil =>
        obtain ⟨hle, hnext⟩ := gives_nextElement_close_iff.mpr (parts_elements_nil_iff.mp hparts)
        exact ⟨hle, bind_eq_ok.mpr ⟨_, mapError_eq_ok.mpr hnext, rfl⟩⟩
      | cons setting settings =>
        obtain ⟨hfield, hfirst⟩ := List.cons_prefix_cons.mp hfirst
        obtain ⟨start, behind, ⟨hle, hnext⟩, helement, hmore⟩ := parts_elements_cons_iff.mp hparts
        obtain ⟨hlt, hsetting⟩ := readsPart_readSetting_iff.mpr ⟨hfield, helement⟩
        obtain ⟨hle', hmore⟩ := (reads_readList_iff (i := i + 1)).mpr ⟨hfirst, hmore⟩
        refine ⟨by omega, bind_eq_ok.mpr ⟨_, mapError_eq_ok.mpr hnext, ?_⟩⟩
        exact bind_eq_ok.mpr ⟨_, mapError_eq_ok.mpr hsetting, bind_eq_ok.mpr ⟨_, hmore, rfl⟩⟩

/-! ## Whole options -/

theorem parts_beginsMember_iff {first : Bool} {settings : List Setting} :
    Parts '\x7d' BeginsMember first text settings rest ↔
      ∃ members, List.Forall₂ Makes members settings ∧ Parts '\x7d' (Json.Member Begins) first text members rest :=
  parts_exists_iff

theorem parts_beginsElement_iff {first : Bool} {settings : List Setting} :
    Parts ']' BeginsElement first text settings rest ↔
      ∃ elements, List.Forall₂ Holds elements settings ∧ Parts ']' Begins first text elements rest :=
  parts_exists_iff

/-- **Settings are read off the trees that describe them**, and off nothing else. -/
theorem readsPart_readSettings_iff {settings : List Setting} :
    ReadsPart (readSettings text) settings rest ↔
      ∃ tree, Describes tree settings ∧ Begins (skipBlanks text) tree rest := by
  unfold readSettings
  constructor
  · rintro ⟨_, h⟩
    split at h
    case h_2 body hmark =>
      obtain ⟨taken, htaken, h⟩ := bind_eq_ok.mp h
      cases h
      obtain ⟨hfirst, hparts⟩ := reads_readList_iff.mp (reads_of_eq htaken)
      obtain ⟨elements, hholds, hparts⟩ := parts_beginsElement_iff.mp hparts
      exact ⟨.array elements, .array hholds hfirst, .array hmark hparts⟩
    case h_3 body hmark =>
      obtain ⟨taken, htaken, h⟩ := bind_eq_ok.mp h
      cases h
      have hnone : (([] : List Setting).map Setting.field).Nodup := List.nodup_nil
      obtain ⟨new, hnew, hparts, hnodup⟩ := Reads.parts hnone (reads_of_eq htaken)
      rw [List.nil_append] at hnew
      subst hnew
      obtain ⟨members, hmakes, hparts⟩ := parts_beginsMember_iff.mp hparts
      exact ⟨.object members, .object hmakes hnodup, .object hmark hparts⟩
    all_goals cases h
  · rintro ⟨tree, hdescribes, hbegins⟩
    cases hdescribes with
    | object hmakes hnodup =>
      cases hbegins with
      | object hmark hparts =>
        split
        case h_3 hmark' =>
          cases hmark.symm.trans hmark'
          have hparts := parts_beginsMember_iff.mpr ⟨_, hmakes, hparts⟩
          obtain ⟨_, hread⟩ : Reads (readObject [] true _) ([] ++ settings) rest := Reads.of_parts hparts hnodup
          rw [List.nil_append] at hread
          rw [hread]
          exact readsPart_of_eq rfl
        all_goals simp_all
    | array hholds hfirst =>
      cases hbegins with
      | array hmark hparts =>
        split
        case h_2 hmark' =>
          cases hmark.symm.trans hmark'
          have hparts := parts_beginsElement_iff.mpr ⟨_, hholds, hparts⟩
          obtain ⟨_, hread⟩ := (reads_readList_iff (i := 0)).mpr ⟨hfirst, hparts⟩
          rw [hread]
          exact readsPart_of_eq rfl
        all_goals simp_all

/-- Options are read off the same trees. -/
theorem readsPart_read_iff {options : Options} : ReadsPart (read text) options rest ↔
    ∃ tree settings, Describes tree settings ∧ Begins (skipBlanks text) tree rest ∧
      options = ({} : Options).setAll settings := by
  unfold read
  constructor
  · rintro ⟨_, h⟩
    obtain ⟨settings, hsettings, h⟩ := bind_eq_ok.mp h
    cases h
    obtain ⟨tree, hdescribes, hbegins⟩ := readsPart_readSettings_iff.mp (readsPart_of_eq hsettings)
    exact ⟨tree, _, hdescribes, hbegins, rfl⟩
  · rintro ⟨tree, settings, hdescribes, hbegins, rfl⟩
    obtain ⟨hlt, hread⟩ := readsPart_readSettings_iff.mpr ⟨tree, hdescribes, hbegins⟩
    exact ⟨hlt, bind_eq_ok.mpr ⟨_, hread, rfl⟩⟩

/-- **A text is read as options exactly if it begins with a tree that describes them.** What stands behind the tree is
not looked at. -/
theorem ofJson?_eq_ok_iff {options : Options} : ofJson? text = .ok options ↔
    ∃ tree settings rest, Describes tree settings ∧ Begins (skipBlanks text) tree rest ∧
      options = ({} : Options).setAll settings := by
  unfold ofJson?
  constructor
  · intro h
    split at h
    case h_1 part hpart =>
      cases h
      obtain ⟨tree, settings, hread⟩ := readsPart_read_iff.mp (readsPart_of_eq hpart)
      exact ⟨tree, settings, _, hread⟩
    case h_2 => cases h
  · rintro ⟨tree, settings, rest, hread⟩
    obtain ⟨_, hpart⟩ := readsPart_read_iff.mpr ⟨tree, settings, hread⟩
    rw [hpart]

end Readers

end Options

end TypedSettings
