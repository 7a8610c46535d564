import Mathlib.Data.List.DropRight
import TypedSettings.Json.Layout
import TypedSettings.Proofs.Json.Strings

/-!
# The marks that are read

What each reader of marks takes: the blanks in front of a mark, and the mark itself. Nothing else is taken, so that two
of these readers in a row go over the marks of the grammar.
-/

namespace TypedSettings.Json

variable {text rest : List Char}

theorem skipBlanks_skipBlanks (text : List Char) : skipBlanks (skipBlanks text) = skipBlanks text :=
  List.dropWhile_idempotent (p := isBlank) (l := text)

theorem gives_readWord_iff : ∀ {word text : List Char}, Gives (readWord word text) () rest ↔ text = word ++ rest
  | [], text => by
    constructor
    · rintro ⟨_, h⟩
      cases h
      rfl
    · rintro rfl
      exact ⟨Nat.le_refl _, rfl⟩
  | w :: word, [] => ⟨fun ⟨_, h⟩ => (nomatch h), nofun⟩
  | w :: word, c :: text => by
    rw [List.cons_append, List.cons.injEq, ← gives_readWord_iff]
    constructor
    · rintro ⟨_, h⟩
      rw [readWord] at h
      split_ifs at h with hc
      obtain ⟨taken, htaken, h⟩ := bind_eq_ok.mp h
      cases h
      exact ⟨hc, gives_of_eq htaken⟩
    · rintro ⟨rfl, hle, h⟩
      refine ⟨Nat.le_succ_of_le hle, ?_⟩
      rw [readWord, if_pos rfl, h]
      rfl

theorem gives_readColon_iff : Gives (readColon text) () rest ↔ skipBlanks text = ':' :: rest := by
  unfold readColon
  constructor
  · rintro ⟨_, h⟩
    split at h <;> cases h
    assumption
  · intro h
    split
    case h_2 hmark =>
      cases h.symm.trans hmark
      exact gives_of_eq rfl
    all_goals simp_all

/-! ## Elements -/

theorem gives_nextElement_close_iff {first : Bool} :
    Gives (nextElement first text) .close rest ↔ skipBlanks text = ']' :: rest := by
  unfold nextElement
  constructor
  · rintro ⟨_, h⟩
    split at h
    case h_2 =>
      cases h
      assumption
    case h_3 =>
      split_ifs at h
      · cases h
      · split at h <;> cases h
    all_goals cases h
  · intro h
    split
    case h_2 hmark =>
      cases h.symm.trans hmark
      exact gives_of_eq rfl
    all_goals simp_all

theorem gives_nextElement_true_iff :
    Gives (nextElement true text) .part rest ↔ rest = skipBlanks text ∧ ∃ c cs, rest = c :: cs ∧ c ≠ ']' := by
  unfold nextElement
  constructor
  · rintro ⟨_, h⟩
    split at h
    case h_3 c cs hne hmark =>
      cases h
      exact ⟨hmark.symm, c, cs, rfl, hne⟩
    all_goals cases h
  · rintro ⟨hrest, c, cs, rfl, hne⟩
    split
    case h_3 hmark =>
      cases hrest.trans hmark
      exact gives_of_eq rfl
    all_goals simp_all

theorem gives_nextElement_false_iff : Gives (nextElement false text) .part rest ↔
    ∃ more, skipBlanks text = ',' :: more ∧ rest = skipBlanks more ∧ ∃ c cs, rest = c :: cs ∧ c ≠ ']' := by
  unfold nextElement
  constructor
  · rintro ⟨_, h⟩
    split at h
    case h_3 c more hne hmark =>
      rw [if_neg Bool.false_ne_true] at h
      split_ifs at h with hcomma
      rw [not_not] at hcomma
      subst hcomma
      split at h
      case h_3 d cs hne' hmark' =>
        cases h
        exact ⟨more, hmark, hmark'.symm, d, cs, rfl, hne'⟩
      all_goals cases h
    all_goals cases h
  · rintro ⟨more, hcomma, hrest, c, cs, rfl, hne⟩
    split
    case h_3 hmark =>
      cases hcomma.symm.trans hmark
      rw [if_neg Bool.false_ne_true, if_neg (not_not.mpr rfl)]
      split
      case h_3 hmark' =>
        cases hrest.trans hmark'
        exact gives_of_eq rfl
      all_goals simp_all
    all_goals simp_all

/-! ## Keys -/

theorem gives_nextKey_close_iff {first : Bool} :
    Gives (nextKey first text) .close rest ↔ skipBlanks text = '\x7d' :: rest := by
  unfold nextKey
  constructor
  · rintro ⟨_, h⟩
    split at h
    case h_2 =>
      cases h
      assumption
    case h_3 =>
      split_ifs at h
      · cases h
      · split at h <;> cases h
    all_goals cases h
  · intro h
    split
    case h_2 hmark =>
      cases h.symm.trans hmark
      exact gives_of_eq rfl
    all_goals simp_all

theorem gives_nextKey_true_iff : Gives (nextKey true text) .part rest ↔ skipBlanks text = '"' :: rest := by
  unfold nextKey
  constructor
  · rintro ⟨_, h⟩
    split at h
    case h_3 hmark =>
      rw [if_pos rfl] at h
      split_ifs at h with hquote
      cases h
      exact hquote ▸ hmark
    all_goals cases h
  · intro h
    split
    case h_3 hmark =>
      cases h.symm.trans hmark
      exact gives_of_eq rfl
    all_goals simp_all

theorem gives_nextKey_false_iff : Gives (nextKey false text) .part rest ↔
    ∃ more, skipBlanks text = ',' :: more ∧ skipBlanks more = '"' :: rest := by
  unfold nextKey
  constructor
  · rintro ⟨_, h⟩
    split at h
    case h_3 c more hne hmark =>
      rw [if_neg Bool.false_ne_true] at h
      split_ifs at h with hcomma
      rw [not_not] at hcomma
      subst hcomma
      split at h
      case h_2 hmark' =>
        cases h
        exact ⟨more, hmark, hmark'⟩
      all_goals cases h
    all_goals cases h
  · rintro ⟨more, hcomma, hquote⟩
    split
    case h_3 hmark =>
      cases hcomma.symm.trans hmark
      rw [if_neg Bool.false_ne_true, if_neg (not_not.mpr rfl)]
      split
      case h_2 hmark' =>
        cases hquote.symm.trans hmark'
        exact gives_of_eq rfl
      all_goals simp_all
    all_goals simp_all

end TypedSettings.Json
