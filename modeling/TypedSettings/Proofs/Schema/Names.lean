import TypedSettings.Proofs.Schema.Mirror
import TypedSettings.Proofs.Schema.Owners

/-!
# Names lead to sections

Within a section no two accessors share an identifier, and each identifier is well-formed; so a name finds the accessor
that bears it and no other (`Section.IsNamed`, `isNamed_of_mem_walk`). Following names from section to section
(`Section.descend?`) therefore goes the way that the accessors go (`Section.Leads`), and the keys that lead to an object
of the document show a way to its section (`ofValue_names`).
-/

namespace TypedSettings

/-! ## Ways through sections -/

/-- The section that a list of names leads to, each the name of a nested section. -/
def Section.descend? : Section → List String → Option Section
  | s, [] => some s
  | s, name :: names => (s.child? name).bind (descend? · names)

/-- A way from a section to one inside it, given by the accessors that are passed. -/
inductive Section.Leads : Section → List Accessor → Section → Prop
  | here (s : Section) : Leads s [] s
  | step {s child target : Section} {accessor : Accessor} {way : List Accessor} : accessor ∈ s.accessors →
      accessor.access.nested? = some child → Leads child way target → Leads s (accessor :: way) target

/-- The names in a section: the identifiers are distinct and well-formed, and each finds its accessor and the section
that this accessor nests, if any. -/
structure Section.IsNamed (s : Section) : Prop where
  distinct : (s.accessors.map Accessor.identifier).Nodup
  wellFormed : ∀ accessor ∈ s.accessors, Identifier.isWellFormed accessor.identifier.text = true
  accessor? : ∀ accessor ∈ s.accessors, s.accessor? accessor.identifier.text = some accessor
  child? : ∀ accessor ∈ s.accessors, s.child? accessor.identifier.text = accessor.access.nested?

/-- The names in a schema of the document that holds the given members: each section is named, and where keys lead to an
object, the names of the accessors of these keys lead to the one section at the object's address. -/
structure Schema.IsNamed (schema : Schema) (members : List (String × Value)) : Prop where
  sections : ∀ s ∈ schema.root.walk, s.IsNamed
  ways : ∀ keys inner, (Value.object members).at? keys = some (.object inner) →
    ∃ way, ∃ target ∈ schema.root.walk, schema.root.Leads way target ∧ way.map Accessor.key = keys ∧
      schema.root.descend? (way.map (·.identifier.text)) = some target ∧
      ∀ s ∈ schema.root.walk, s.address = ⟨keys⟩ ↔ s = target

/-! ## Sections and what is inside them -/

theorem walkAccessors_eq : ∀ (accessors : List Accessor),
    Section.walkAccessors accessors = accessors.flatMap fun accessor => Section.walkAccess accessor.access
  | [] => rfl
  | ⟨_, _, _, access⟩ :: accessors => by rw [Section.walkAccessors, walkAccessors_eq accessors, List.flatMap_cons]

theorem walkAccessors_cons (accessor : Accessor) (accessors : List Accessor) :
    Section.walkAccessors (accessor :: accessors) =
      accessor.access.nested?.elim [] Section.walk ++ Section.walkAccessors accessors := by
  obtain ⟨_, _, _, access⟩ := accessor
  cases access <;> rfl

theorem walk_eq (s : Section) : s.walk = s :: Section.walkAccessors s.accessors := by
  cases s
  rfl

theorem mem_walk_self (s : Section) : s ∈ s.walk := by
  rw [walk_eq]
  exact List.mem_cons_self

/-- What is inside a nested section is inside the section that nests it. -/
theorem mem_walk_of_nested {s child target : Section} {accessor : Accessor} (hmem : accessor ∈ s.accessors)
    (hnested : accessor.access.nested? = some child) (h : target ∈ child.walk) : target ∈ s.walk := by
  have haccess : accessor.access = .nested child := by
    cases hacc : accessor.access with
    | nested c =>
      rw [hacc] at hnested
      exact congrArg Access.nested (Option.some.inj hnested)
    | _ => rw [hacc] at hnested; cases hnested
  rw [walk_eq, walkAccessors_eq]
  refine List.mem_cons_of_mem _ (List.mem_flatMap.mpr ⟨accessor, hmem, ?_⟩)
  rw [haccess]
  exact h

theorem Section.Leads.mem_walk {s target : Section} {way : List Accessor} (h : s.Leads way target) :
    target ∈ s.walk := by
  induction h with
  | here s => exact mem_walk_self s
  | step hmem hnested _ ih => exact mem_walk_of_nested hmem hnested ih

/-- Where all sections are named, the names on a way lead where the way leads. -/
theorem Section.Leads.descend? {s target : Section} {way : List Accessor} (h : s.Leads way target) :
    (∀ t ∈ s.walk, t.IsNamed) → s.descend? (way.map (·.identifier.text)) = some target := by
  induction h with
  | here s => exact fun _ => rfl
  | @step s _ _ accessor _ hmem hnested _ ih =>
    intro hnamed
    rw [List.map_cons, Section.descend?, (hnamed s (mem_walk_self s)).child? accessor hmem, hnested]
    exact ih fun t ht => hnamed t (mem_walk_of_nested hmem hnested ht)

/-! ## The names of a level -/

/-- The identifiers of a list of accessors are distinct, and a table holds none of them. -/
def FreshIn (owners : Owners) (accessors : List Accessor) : Prop :=
  (accessors.map Accessor.identifier).Nodup ∧ ∀ accessor ∈ accessors, owners.holds accessor.identifier = false

theorem FreshIn.cons {owners : Owners} {accessor : Accessor} {accessors : List Accessor} {key : String}
    (hfree : owners.holds accessor.identifier = false)
    (h : FreshIn (owners.give accessor.identifier key) accessors) : FreshIn owners (accessor :: accessors) := by
  obtain ⟨hnd, hrest⟩ := h
  constructor
  · rw [List.map_cons, List.nodup_cons]
    refine ⟨fun hmem => ?_, hnd⟩
    obtain ⟨other, hother, hid⟩ := List.mem_map.mp hmem
    have hheld := hrest other hother
    rw [hid, Owners.holds_give_self] at hheld
    cases hheld
  · intro other hmem
    rcases List.mem_cons.mp hmem with rfl | hmem
    · exact hfree
    · exact Owners.holds_of_give (hrest other hmem)

section Passes

variable {options : Options} {level : Address} {depth : Nat} {owners : Owners} {members : List (String × Value)}
  {accessors : List Accessor} {notices : List Notice}

/-- **The identifiers of a level are distinct**, and none was given out before. -/
theorem Pass.freshIn (h : Pass options level depth owners members accessors notices) : FreshIn owners accessors := by
  induction h with
  | done => exact ⟨List.nodup_nil, fun _ hmem => by cases hmem⟩
  | skipped _ _ ih => exact ih
  | leaf _ hnamed _ ih => exact .cons hnamed.free ih
  | object _ hnamed _ _ ih => exact .cons hnamed.free ih

theorem Pass.wellFormed (h : Pass options level depth owners members accessors notices) :
    ∀ accessor ∈ accessors, Identifier.isWellFormed accessor.identifier.text = true := by
  induction h with
  | done => exact fun _ hmem => by cases hmem
  | skipped _ _ ih => exact ih
  | leaf _ hnamed _ ih | object _ hnamed _ _ ih =>
    intro accessor hmem
    rcases List.mem_cons.mp hmem with rfl | hmem
    · exact hnamed.isWellFormed
    · exact ih accessor hmem

/-- Where the identifiers are distinct, each finds its accessor. -/
theorem find?_identifier : ∀ {accessors : List Accessor}, (accessors.map Accessor.identifier).Nodup →
    ∀ accessor ∈ accessors, accessors.find? (·.identifier.text == accessor.identifier.text) = some accessor
  | head :: accessors, hnd, accessor, hmem => by
    rw [List.map_cons, List.nodup_cons] at hnd
    rcases List.mem_cons.mp hmem with rfl | hmem
    · exact List.find?_cons_of_pos (beq_self_eq_true _)
    · have hne : head.identifier ≠ accessor.identifier := fun e => hnd.1 (List.mem_map.mpr ⟨accessor, hmem, e.symm⟩)
      have htext : ¬head.identifier.text = accessor.identifier.text := fun e => hne (congrArg Identifier.mk e)
      rw [List.find?_cons_of_neg (by simpa using htext)]
      exact find?_identifier hnd.2 accessor hmem

/-- The section made of a pass is named. -/
theorem Pass.isNamed (h : Pass options level depth owners members accessors notices) :
    (Schema.sectionOf level depth members accessors).IsNamed where
  distinct := h.freshIn.1
  wellFormed := h.wellFormed
  accessor? := find?_identifier h.freshIn.1
  child? := by
    intro accessor hmem
    have hfind : (Schema.sectionOf level depth members accessors).accessor? accessor.identifier.text = some accessor :=
      find?_identifier h.freshIn.1 accessor hmem
    rw [Section.child?, hfind]
    rfl

/-- **Where keys lead to an object, accessors of these keys lead to its section.** -/
theorem Pass.exists_leads (h : Pass options level depth owners members accessors notices) :
    ∀ {key keys inner}, (members.lookup key).bind (Value.at? · keys) = some (.object inner) →
      ∃ accessor ∈ accessors, accessor.key = key ∧ ∃ child, accessor.access.nested? = some child ∧
        ∃ way target, Section.Leads child way target ∧ way.map Accessor.key = keys ∧
          target.address.keys = level.keys ++ key :: keys := by
  induction h with
  | done => intro key keys inner hat; cases hat
  | @skipped level depth owners key' members accessors notices _ _ ih =>
    intro key keys inner hat
    by_cases hkey : key = key'
    · rw [hkey, List.lookup_cons, beq_self_eq_true] at hat
      exact absurd hat (Value.at?_ne_object (fun _ e => by cases e) keys inner)
    · rw [List.lookup_cons, beq_false_of_ne hkey] at hat
      exact ih hat
  | @leaf level _ _ key' _ _ _ _ _ _ _ _ hleaf _ _ ih =>
    intro key keys inner hat
    by_cases hkey : key = key'
    · rw [hkey, List.lookup_cons, beq_self_eq_true] at hat
      exact absurd hat (Value.at?_ne_object hleaf.ne_object keys inner)
    · rw [List.lookup_cons, beq_false_of_ne hkey] at hat
      obtain ⟨accessor, hmem, hrest⟩ := ih hat
      exact ⟨accessor, List.mem_cons_of_mem _ hmem, hrest⟩
  | @object level depth _ key' fields _ _ children _ _ _ _ hinner _ _ ihInner ih =>
    intro key keys inner hat
    by_cases hkey : key = key'
    · rw [hkey, List.lookup_cons, beq_self_eq_true] at hat
      refine ⟨_, List.mem_cons_self, hkey.symm, _, rfl, ?_⟩
      cases keys with
      | nil => exact ⟨[], _, .here _, rfl, by rw [hkey]; rfl⟩
      | cons k ks =>
        obtain ⟨accessor, hmem, rfl, child, hnested, way, target, hleads, hway, haddress⟩ := ihInner hat
        refine ⟨accessor :: way, target, .step hmem hnested hleads, by rw [List.map_cons, hway], ?_⟩
        rw [haddress, hkey, Address.child, List.append_assoc, List.singleton_append]
    · rw [List.lookup_cons, beq_false_of_ne hkey] at hat
      obtain ⟨accessor, hmem, hrest⟩ := ih hat
      exact ⟨accessor, List.mem_cons_of_mem _ hmem, hrest⟩

end Passes

/-! ## Schemas -/

section Schemas

variable {options : Options} {members : List (String × Value)} {schema : Schema}

/-- All sections of a schema are named. -/
theorem isNamed_of_mem_walk (h : Schema.ofValue options (.object members) = .ok schema) :
    ∀ s ∈ schema.root.walk, s.IsNamed := by
  intro s hs
  obtain ⟨level, depth, members, accessors, notices, rfl, hpass⟩ := comesOfPass_of_mem_walk h s hs
  exact hpass.isNamed

/-- Where keys lead to an object, accessors of these keys lead from the root to a section at the object's address. -/
theorem exists_leads_root (h : Schema.ofValue options (.object members) = .ok schema) {keys : List String}
    {inner : List (String × Value)} (hat : (Value.object members).at? keys = some (.object inner)) :
    ∃ way target, schema.root.Leads way target ∧ way.map Accessor.key = keys ∧ target.address = ⟨keys⟩ := by
  obtain ⟨accessors, hroot, hpass⟩ := exists_pass h
  rw [hroot]
  cases keys with
  | nil => exact ⟨[], _, .here _, rfl, rfl⟩
  | cons key keys =>
    obtain ⟨accessor, hmem, rfl, child, hnested, way, target, hleads, hway, haddress⟩ := hpass.exists_leads hat
    exact ⟨accessor :: way, target, .step hmem hnested hleads, by rw [List.map_cons, hway],
      congrArg Address.mk haddress⟩

/-- No two sections of a schema have the same address. -/
theorem eq_of_address_eq (hkeys : (Value.object members).hasDistinctKeys = true)
    (h : Schema.ofValue options (.object members) = .ok schema) {s t : Section} (hs : s ∈ schema.root.walk)
    (ht : t ∈ schema.root.walk) (hst : s.address = t.address) : s = t :=
  List.inj_on_of_nodup_map (map_address_walk h ▸ Value.nodup_objects hkeys) hs ht hst

/-- **Names lead to sections.** -/
theorem ofValue_names (hkeys : (Value.object members).hasDistinctKeys = true)
    (h : Schema.ofValue options (.object members) = .ok schema) : schema.IsNamed members := by
  refine ⟨isNamed_of_mem_walk h, fun keys inner hat => ?_⟩
  obtain ⟨way, target, hleads, hway, haddress⟩ := exists_leads_root h hat
  refine ⟨way, target, hleads.mem_walk, hleads, hway, hleads.descend? (isNamed_of_mem_walk h), fun s hs => ?_⟩
  constructor
  · exact fun hs' => eq_of_address_eq hkeys h hs hleads.mem_walk (hs'.trans haddress.symm)
  · rintro rfl
    exact haddress

/-- The hypotheses are met by a document whose second key gets the name that the third would have. -/
theorem ofValue_names_renamed : ∃ schema,
    Schema.ofValue {} (.object [("a-b", .object []), ("a_b", .object [("", .object [])]), ("AB2", .bool true)]) =
      .ok schema ∧
    schema.root.accessors.map (·.identifier.text) = ["AB", "AB2", "AB22"] ∧
    schema.IsNamed [("a-b", .object []), ("a_b", .object [("", .object [])]), ("AB2", .bool true)] := by
  refine exists_of_isOk (by decide) fun schema h => ⟨?_, ofValue_names (by decide) h⟩
  apply eq_of_toOption_map_eq h
  decide

end Schemas

end TypedSettings
