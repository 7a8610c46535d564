import TypedSettings.Proofs.Schema.Names
import TypedSettings.Proofs.Scope
import TypedSettings.Proofs.Text.Lines

/-!
# What generated names are made of

The names of generated declarations come from identifiers by numbers and fixed words, so they are made of letters,
digits and underscores (`IsNameText`); such a text holds nothing that could end a line or a word (`IsNameText.lacks`).
-/

namespace TypedSettings

/-- A text of letters, digits and underscores. -/
def IsNameText (s : String) : Prop := ∀ c ∈ s.toList, isWordChar c = true ∨ c = '_'

section NameText

variable {s t : String}

theorem isNameText_of_isWellFormed (h : Identifier.isWellFormed s = true) : IsNameText s :=
  (Identifier.isWellFormed_iff.mp h).2.1

theorem isNameText_ofKey (key : String) : IsNameText (Identifier.ofKey key).text :=
  isNameText_of_isWellFormed (Identifier.isWellFormed_ofKey key)

theorem isNameText_ofList {cs : List Char} (h : cs.all (fun c => isWordChar c || c == '_') = true) :
    IsNameText (String.ofList cs) := by
  intro c hc
  rw [String.toList_ofList] at hc
  simpa using List.all_eq_true.mp h c hc

theorem IsNameText.append (hs : IsNameText s) (ht : IsNameText t) : IsNameText (s ++ t) := by
  intro c hc
  rw [String.toList_append] at hc
  rcases List.mem_append.mp hc with hc | hc
  · exact hs c hc
  · exact ht c hc

theorem isNameText_toString (n : Nat) : IsNameText (toString n) := by
  intro c hc
  rw [Nat.toString_eq_ofList_toDigits, String.toList_ofList] at hc
  exact Or.inl (Identifier.isWordChar_of_mem_toDigits hc)

/-- What a scope gives out for a name is a name. -/
theorem IsNameText.freeName {scope : Scope} (hseparator : IsNameText scope.separator) (h : IsNameText s) :
    IsNameText (scope.freeName s) := by
  rcases scope.freeName_eq s with heq | ⟨k, heq⟩
  · rw [heq]
    exact h
  · rw [heq]
    exact (h.append hseparator).append (isNameText_toString k)

theorem Scope.isNameText_claim (scope : Scope) (hseparator : IsNameText scope.separator) (h : IsNameText s) :
    IsNameText (scope.claim s).1 := hseparator.freeName h

/-- Where a number follows a name at once, what a scope gives out for an identifier is one. -/
theorem Scope.isWellFormed_claim {scope : Scope} (hseparator : scope.separator = "")
    (h : Identifier.isWellFormed s = true) : Identifier.isWellFormed (scope.claim s).1 = true := by
  rcases scope.freeName_eq s with heq | ⟨k, heq⟩
  · rw [Scope.claim, heq]
    exact h
  · rw [Scope.claim, heq]
    refine Identifier.isWellFormed_of_toList_append h ?_ fun _ => Identifier.isWordChar_of_mem_toDigits (n := k)
    rw [Scope.toList_numbered, hseparator, List.append_assoc]
    rfl

/-- A name lacks what is neither a letter nor a digit nor an underscore. -/
theorem IsNameText.lacks {kind : Char → Bool} (hkind : ∀ c, kind c = true → isWordChar c = false ∧ c ≠ '_')
    (h : IsNameText s) : Text.Lacks kind s := by
  intro c hc
  rw [← Bool.not_eq_true]
  intro hbad
  obtain ⟨hword, hne⟩ := hkind c hbad
  rcases h c hc with hc | hc
  · rw [hc] at hword
    cases hword
  · exact hne hc

theorem IsNameText.not_mem {c : Char} (h : IsNameText s) (hc : isWordChar c = false ∧ c ≠ '_') : c ∉ s.toList :=
  fun hmem => (h c hmem).elim (ne_true_of_eq_false hc.1) hc.2

/-- A name is one word. -/
theorem IsNameText.blank_not_mem (h : IsNameText s) : ' ' ∉ s.toList := h.not_mem (by decide)

/-- A name stays on its line. -/
theorem IsNameText.lacks_lineFeed (h : IsNameText s) : Text.Lacks Text.isLineFeed s :=
  h.lacks fun c hc => by rw [eq_of_beq hc]; decide

end NameText

/-! ## Sections with well-formed names -/

/-- All accessors in a section, and in those inside it, have a property. -/
def Section.Each (P : Accessor → Prop) (s : Section) : Prop := ∀ t ∈ s.walk, ∀ accessor ∈ t.accessors, P accessor

/-- An accessor has a property, and so have all those in the section that it nests, if any. -/
structure Accessor.Each (P : Accessor → Prop) (accessor : Accessor) : Prop where
  self : P accessor
  nested : ∀ child, accessor.access.nested? = some child → child.Each P

theorem Section.Each.accessors {P : Accessor → Prop} {s : Section} (h : s.Each P) :
    ∀ accessor ∈ s.accessors, accessor.Each P := fun accessor hmem =>
  ⟨h s (mem_walk_self s) accessor hmem, fun _ hnested t ht => h t (mem_walk_of_nested hmem hnested ht)⟩

/-- All accessors in a section have a property where those of the section do, each with all inside it. -/
theorem Section.each_iff {P : Accessor → Prop} {s : Section} :
    s.Each P ↔ ∀ accessor ∈ s.accessors, accessor.Each P := by
  refine ⟨Section.Each.accessors, fun h t ht => ?_⟩
  rw [walk_eq, List.mem_cons] at ht
  rcases ht with rfl | ht
  · exact fun accessor hmem => (h accessor hmem).self
  · rw [walkAccessors_eq, List.mem_flatMap] at ht
    obtain ⟨accessor, hmem, ht⟩ := ht
    cases haccess : accessor.access with
    | nested child =>
      rw [haccess] at ht
      exact (h accessor hmem).nested child (by rw [haccess]; rfl) t ht
    | scalar kind =>
      rw [haccess] at ht
      cases ht
    | list =>
      rw [haccess] at ht
      cases ht

theorem Section.Each.mono {P Q : Accessor → Prop} {s : Section} (h : s.Each P)
    (hPQ : ∀ accessor, P accessor → Q accessor) : s.Each Q := fun t ht accessor hmem =>
  hPQ accessor (h t ht accessor hmem)

/-- The identifier of an accessor is well-formed. -/
def Accessor.IsWellNamed (accessor : Accessor) : Prop := Identifier.isWellFormed accessor.identifier.text = true

/-- All identifiers in a section, and in those inside it, are well-formed. -/
def Section.HasWellFormedNames (s : Section) : Prop := s.Each Accessor.IsWellNamed

theorem Accessor.IsWellNamed.isNameText {accessor : Accessor} (h : accessor.IsWellNamed) :
    IsNameText accessor.identifier.text := isNameText_of_isWellFormed h

/-- A document whose keys hold quotes, backslashes, braces and line ends, while its identifiers are well-formed, one of
them twice. -/
def Section.hostile : Section :=
  ⟨.root, 0,
    [ ⟨⟨"AB"⟩, "a\");\n\x7db", ⟨["a\");\n\x7db"]⟩, .list⟩,
      ⟨⟨"_1"⟩, "1\\", ⟨["1\\"]⟩, .nested ⟨⟨["1\\"]⟩, 1,
        [ ⟨⟨"C"⟩, "\nc", ⟨["1\\", "\nc"]⟩, .scalar .integer⟩,
          ⟨⟨"C"⟩, "c\u0085", ⟨["1\\", "c\u0085"]⟩, .scalar .string⟩ ],
        true⟩⟩ ],
    true⟩

theorem Section.hasWellFormedNames_hostile : Section.hostile.HasWellFormedNames := by
  unfold Section.HasWellFormedNames Section.Each Accessor.IsWellNamed
  decide

end TypedSettings
