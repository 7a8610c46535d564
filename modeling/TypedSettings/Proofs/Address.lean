import Mathlib.Data.List.Basic
import Mathlib.Tactic.ByContra
import TypedSettings.Address

/-!
# The texts of addresses

The text of a child's address is the stem of its level with the key behind it (`text_child`), and only the root has an
empty stem (`stem_eq_empty_iff`), whatever the keys hold.

Generated code puts a path together in one of three ways (`PathExpression`); that of a lookup (`Address.lookup`) leads to
the text of the child's address (`path_lookup`).

A text shows its address as far as the keys have no colons of their own: split at its colons it gives the keys, each
split at its own ones (`splitOn_text`). So two addresses have the same text just when their keys have the same parts
(`text_eq_text_iff`), and an empty key is a part like any other.
-/

namespace TypedSettings

namespace Address

/-! ## Stems -/

theorem isRoot_iff {address : Address} : address.isRoot = true ↔ address = .root := by
  obtain ⟨keys⟩ := address
  rw [isRoot, List.isEmpty_iff, root, mk.injEq]

theorem child_ne_root (address : Address) (key : String) : address.child key ≠ .root := fun h =>
  List.append_ne_nil_of_right_ne_nil _ (List.cons_ne_nil key []) (congrArg keys h)

/-- **Only the root has an empty stem.** -/
theorem stem_eq_empty_iff {address : Address} : address.stem = "" ↔ address = .root := by
  rw [← isRoot_iff, stem]
  split
  · rename_i hroot
    exact iff_of_true rfl hroot
  · rename_i hroot
    refine iff_of_false (fun h => ?_) hroot
    have hcolon : ':' ∈ (address.text ++ ":").toList := by
      rw [String.toList_append]
      exact List.mem_append_right _ (List.mem_singleton_self _)
    rw [h] at hcolon
    cases hcolon

theorem isEmpty_stem (address : Address) : address.stem.isEmpty = address.isRoot := by
  rw [Bool.eq_iff_iff, String.isEmpty_iff, stem_eq_empty_iff, isRoot_iff]

theorem intercalate_append_singleton (key : String) : ∀ {keys : List String}, keys ≠ [] →
    String.intercalate ":" (keys ++ [key]) = String.intercalate ":" keys ++ ":" ++ key
  | [], h => absurd rfl h
  | [first], _ => by
    rw [List.singleton_append, String.intercalate_cons_cons, String.intercalate_singleton,
      String.intercalate_singleton]
  | first :: second :: keys, _ => by
    have ih := intercalate_append_singleton key (List.cons_ne_nil second keys)
    rw [List.cons_append] at ih
    rw [List.cons_append, List.cons_append, String.intercalate_cons_cons, ih, String.intercalate_cons_cons]
    simp only [String.append_assoc]

/-- **The text of a child's address is the stem with the key behind it.** -/
theorem text_child (address : Address) (key : String) : (address.child key).text = address.stem ++ key := by
  rw [stem]
  split
  · rename_i hroot
    rw [isRoot_iff.mp hroot, String.empty_append]
    exact String.intercalate_singleton
  · rename_i hroot
    exact intercalate_append_singleton key fun h => hroot (List.isEmpty_iff.mpr h)

end Address

/-! ## Expressions for paths -/

/-- How generated code makes the path that it asks a provider for: a literal, the key that it is given, or this key
behind a literal. -/
inductive PathExpression where
  | literal (text : String)
  | key
  | behind (stem : String)
  deriving DecidableEq, Repr

/-- The path that an expression stands for where a key is given. -/
def PathExpression.path (key : String) : PathExpression → String
  | .literal text => text
  | .key => key
  | .behind stem => stem ++ key

namespace Address

/-- The expression of the lookup in the section at an address. -/
def lookup (address : Address) : PathExpression := if address.isRoot then .key else .behind address.stem

/-- **A lookup asks at the address of the child**, at the root and below. -/
theorem path_lookup (address : Address) (key : String) : address.lookup.path key = (address.child key).text := by
  rw [text_child, lookup]
  split
  · rename_i hroot
    rw [stem_eq_empty_iff.mpr (isRoot_iff.mp hroot), String.empty_append, PathExpression.path]
  · rw [PathExpression.path]

/-! ## Colons -/

/-- The parts of the keys between the colons in them. -/
def parts (address : Address) : List (List Char) := address.keys.flatMap fun key => key.toList.splitOn ':'

theorem splitOn_intercalate : ∀ {keys : List String}, keys ≠ [] →
    (String.intercalate ":" keys).toList.splitOn ':' = keys.flatMap fun key => key.toList.splitOn ':'
  | [], h => absurd rfl h
  | [key], _ => by rw [String.intercalate_singleton, List.flatMap_singleton]
  | first :: second :: keys, _ => by
    have hjoined : (String.intercalate ":" (first :: second :: keys)).toList =
        first.toList ++ ':' :: (String.intercalate ":" (second :: keys)).toList := by
      rw [String.intercalate_cons_cons, String.toList_append, String.toList_append, List.append_assoc]
      rfl
    rw [hjoined, List.flatMap_cons, ← splitOn_intercalate (List.cons_ne_nil second keys)]
    exact List.splitOnP_append_cons _ _ (beq_self_eq_true ':')

/-- **A text split at its colons gives the parts of the keys.** -/
theorem splitOn_text {address : Address} (h : address ≠ .root) : address.text.toList.splitOn ':' = address.parts :=
  splitOn_intercalate fun hkeys => h (congrArg mk hkeys)

/-- **Two addresses have the same text just when their keys have the same parts.** -/
theorem text_eq_text_iff {address other : Address} (h : address ≠ .root) (h' : other ≠ .root) :
    address.text = other.text ↔ address.parts = other.parts := by
  rw [← splitOn_text h, ← splitOn_text h']
  constructor
  · exact fun htext => congrArg (·.toList.splitOn ':') htext
  · intro hparts
    have hchars := congrArg ([':'].intercalate) hparts
    rw [List.intercalate_splitOn, List.intercalate_splitOn] at hchars
    exact String.toList_inj.mp hchars

/-- A key without colons is its only part. -/
theorem parts_eq {address : Address} (h : ∀ key ∈ address.keys, ':' ∉ key.toList) :
    address.parts = address.keys.map String.toList := by
  rw [parts, List.map_eq_flatMap]
  exact List.flatMap_congr fun key hkey => List.splitOn_eq_singleton (h key hkey)

/-- Where two addresses have the same text, one of their keys has a colon. -/
theorem exists_colon {address other : Address} (h : address ≠ .root) (h' : other ≠ .root) (hne : address ≠ other)
    (htext : address.text = other.text) : ∃ key ∈ address.keys ++ other.keys, ':' ∈ key.toList := by
  by_contra hnone
  have hfree : ∀ key ∈ address.keys ++ other.keys, ':' ∉ key.toList := fun key hkey hcolon =>
    hnone ⟨key, hkey, hcolon⟩
  obtain ⟨hkeys, hkeys'⟩ := List.forall_mem_append.mp hfree
  have hparts := (text_eq_text_iff h h').mp htext
  rw [parts_eq hkeys, parts_eq hkeys'] at hparts
  exact hne (congrArg mk (List.map_injective_iff.mpr (fun _ _ => String.toList_inj.mp) hparts))

end Address

end TypedSettings
