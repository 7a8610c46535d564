import TypedSettings.Proofs.Json.Front
import TypedSettings.Proofs.Options.Reading

/-!
# Options and the text behind them

`ofJson?` reads options at the front of a text. As documents are read, options would have to be all that a text says
(`ofWholeJson?`). The two agree on what the options are, and a text is read by the first one exactly if a front of it is
read by the second (`ofJson?_front`): whatever stands behind the front is not looked at.
-/

namespace TypedSettings.Options

open Json

variable {text : List Char} {options : Options}

/-- The options that a text holds, with nothing but blanks around them. -/
def ofWholeJson? (text : List Char) : Except Fault Options := do
  let part ← read text
  match skipBlanks part.rest with
  | [] => return part.value
  | rest => throw (.ofJson [] (.within .trailingCharacters rest))

theorem ofWholeJson?_eq_ok_iff : ofWholeJson? text = .ok options ↔
    ∃ tree settings, tree.IsText text ∧ Describes tree settings ∧ options = ({} : Options).setAll settings := by
  unfold ofWholeJson?
  constructor
  · intro h
    obtain ⟨part, hpart, h⟩ := bind_eq_ok.mp h
    split at h
    case h_1 hrest =>
      cases h
      obtain ⟨tree, settings, hdescribes, hbegins, hoptions⟩ := readsPart_read_iff.mp (readsPart_of_eq hpart)
      exact ⟨tree, settings, ⟨_, hbegins, hrest⟩, hdescribes, hoptions⟩
    case h_2 => cases h
  · rintro ⟨tree, settings, ⟨rest, hbegins, hrest⟩, hdescribes, hoptions⟩
    obtain ⟨_, hpart⟩ := readsPart_read_iff.mpr ⟨tree, settings, hdescribes, hbegins, hoptions⟩
    refine bind_eq_ok.mpr ⟨_, hpart, ?_⟩
    simp only [hrest]
    rfl

/-- Everything may stand behind what describes settings: it is no number. -/
theorem Describes.mayPrecede {tree : Tree} {settings : List Setting} (h : Describes tree settings) (rest : List Char) :
    tree.MayPrecede rest := by
  intro hnumber
  cases h with
  | object _ _ => simp [Tree.kindName] at hnumber
  | array _ _ => simp [Tree.kindName] at hnumber

/-- **Options are read if a front of the text says them**, as those that the front says, whatever stands behind it. To
read them as documents are read would take the front alone: the text is then read only if blanks stand behind it. -/
theorem ofJson?_front (text : List Char) (options : Options) :
    (ofWholeJson? text = .ok options ↔
      ∃ tree settings, tree.IsText text ∧ Describes tree settings ∧ options = ({} : Options).setAll settings) ∧
    (ofJson? text = .ok options ↔ ∃ front rest, text = front ++ rest ∧ ofWholeJson? front = .ok options) ∧
    ∀ front rest, text = front ++ rest → ofWholeJson? front = .ok options →
      (ofWholeJson? text = .ok options ↔ skipBlanks rest = []) := by
  refine ⟨ofWholeJson?_eq_ok_iff, ?_, ?_⟩
  · rw [ofJson?_eq_ok_iff]
    constructor
    · rintro ⟨tree, settings, rest, hdescribes, hbegins, hoptions⟩
      obtain ⟨front, htext, hfront⟩ := hbegins.exists_isText
      exact ⟨front, rest, htext, ofWholeJson?_eq_ok_iff.mpr ⟨tree, settings, hfront, hdescribes, hoptions⟩⟩
    · rintro ⟨front, rest, rfl, hfront⟩
      obtain ⟨tree, settings, ⟨behind, hbegins, -⟩, hdescribes, hoptions⟩ := ofWholeJson?_eq_ok_iff.mp hfront
      exact ⟨tree, settings, behind ++ rest, hdescribes, hbegins.append (hdescribes.mayPrecede _), hoptions⟩
  · rintro front rest rfl hfront
    obtain ⟨tree, settings, ⟨behind, hbegins, hbehind⟩, hdescribes, hoptions⟩ := ofWholeJson?_eq_ok_iff.mp hfront
    have happend := hbegins.append (hdescribes.mayPrecede (behind ++ rest))
    rw [← skipBlanks_append_of_eq_nil hbehind, ofWholeJson?_eq_ok_iff]
    constructor
    · -- A text begins with one tree only, so the tree that it says ends where the front's tree does.
      rintro ⟨tree', settings', ⟨behind', hbegins', hbehind'⟩, -, -⟩
      obtain ⟨-, rfl⟩ := happend.unique hbegins'
      exact hbehind'
    · intro hrest
      exact ⟨tree, settings, ⟨_, happend, hrest⟩, hdescribes, hoptions⟩

/-- Options with a letter behind them are read, while a document that goes on like this is refused. -/
theorem ofJson?_goesOn : ofJson? "\x7b\x7d x".toList = .ok {} ∧
    ofWholeJson? "\x7b\x7d x".toList = .error ⟨[], .json .trailingCharacters, 0⟩ := by
  have hbegins : Begins (skipBlanks "\x7b\x7d x".toList) (.object []) [' ', 'x'] := .object rfl (.close rfl)
  have hdescribes : Describes (.object []) [] := .object .nil List.nodup_nil
  obtain ⟨_, hread⟩ := readsPart_read_iff.mpr ⟨_, _, hdescribes, hbegins, rfl⟩
  refine ⟨ofJson?_eq_ok_iff.mpr ⟨_, _, _, hdescribes, hbegins, rfl⟩, ?_⟩
  rw [ofWholeJson?, hread]
  rfl

end TypedSettings.Options
