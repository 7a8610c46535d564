import TypedSettings.Proofs.Json.Printer
import TypedSettings.Proofs.Schema.Places
import TypedSettings.Schema.Record

/-!
# Records tell schemas

The record of a schema holds all of it, although addresses are written as texts and a key may hold colons: the keys of
an address are those of the accessors on the way to it, and each of them is in the record as it is.

* `Section.eq_of_record_eq`: sections at the same address with the same record are the same, if their addresses follow
  from their own by the keys on the way;
* `Notice.record_injective`: notices with the same record are the same;
* `ofValue_record_inj`: so schemas with the same record are the same, and records with the same text are.
-/

namespace TypedSettings

/-! ## Sections -/

/-- The record of an accessor. -/
def Accessor.record (accessor : Accessor) : Value :=
  .object [("identifier", .string accessor.identifier.text), ("raw_key", .string accessor.key),
    ("path", .string accessor.address.text), ("kind", Section.recordAccess accessor.access)]

theorem recordAccessors_eq (accessors : List Accessor) :
    Section.recordAccessors accessors = accessors.map Accessor.record := by
  induction accessors with
  | nil => rfl
  | cons accessor accessors ih =>
    obtain ⟨identifier, key, address, access⟩ := accessor
    rw [Section.recordAccessors, ih]
    rfl

theorem Section.record_eq (s : Section) : s.record = .object
    [("path", .string s.address.text), ("depth", .integer s.depth),
      ("accessors", .array (s.accessors.map Accessor.record)), ("fallback", .bool s.hasLookup)] := by
  cases s
  rw [record, recordAccessors_eq]

theorem Scalar.name_injective : Function.Injective Scalar.name := by
  intro kind kind' h
  cases kind <;> cases kind' <;> simp [name] at h ⊢

theorem Identifier.text_injective : Function.Injective Identifier.text := fun ⟨_⟩ ⟨_⟩ h => congrArg mk h

/-- What an accessor gives is told by its record, if the section that it may nest is. -/
theorem Access.eq_of_recordAccess_eq {access access' : Access}
    (hnested : ∀ child child', access = .nested child → access' = .nested child' → child.record = child'.record →
      child = child') (h : Section.recordAccess access = Section.recordAccess access') : access = access' := by
  cases access with
  | scalar kind =>
    cases access' with
    | scalar kind' =>
      simp only [Section.recordAccess, Value.object.injEq, List.cons.injEq, Prod.mk.injEq, Value.string.injEq] at h
      rw [Scalar.name_injective h.1.2]
    | _ => simp [Section.recordAccess] at h
  | list =>
    cases access' with
    | list => rfl
    | _ => simp [Section.recordAccess] at h
  | nested child =>
    cases access' with
    | nested child' =>
      simp only [Section.recordAccess, Value.object.injEq, List.cons.injEq, Prod.mk.injEq] at h
      rw [hnested child child' rfl rfl h.1.2]
    | _ => simp [Section.recordAccess] at h

/-- Lists with the same images are the same, if elements with the same image are. -/
theorem eq_of_map_eq_map {α β : Type} {f : α → β} : ∀ {xs ys : List α}, xs.map f = ys.map f →
    (∀ x ∈ xs, ∀ y ∈ ys, f x = f y → x = y) → xs = ys
  | [], [], _, _ => rfl
  | [], _ :: _, h, _ => by cases h
  | _ :: _, [], h, _ => by cases h
  | x :: xs, y :: ys, h, hinj => by
    obtain ⟨hhead, htail⟩ := List.cons.inj h
    rw [hinj x List.mem_cons_self y List.mem_cons_self hhead, eq_of_map_eq_map htail fun a ha b hb =>
      hinj a (List.mem_cons_of_mem x ha) b (List.mem_cons_of_mem y hb)]

/-- **Sections at the same address with the same record are the same**, if the addresses in them follow from their
own. -/
theorem Section.eq_of_record_eq {s : Section} : ∀ {s' : Section}, s.IsAddressed → s'.IsAddressed →
    s.address = s'.address → s.record = s'.record → s = s' := by
  induction s using nestedInduction with
  | step s ih =>
    intro s' hs hs' haddress h
    simp only [record_eq, Value.object.injEq, List.cons.injEq, Prod.mk.injEq, Value.integer.injEq, Value.array.injEq,
      Value.bool.injEq, true_and, and_true, Int.natCast_inj] at h
    obtain ⟨-, hdepth, haccessors, hlookup⟩ := h
    have hsame : s.accessors = s'.accessors := eq_of_map_eq_map haccessors fun accessor hmem accessor' hmem' h => by
      simp only [Accessor.record, Value.object.injEq, List.cons.injEq, Prod.mk.injEq, Value.string.injEq, true_and,
        and_true] at h
      obtain ⟨hidentifier, hkey, -, haccess⟩ := h
      -- the text of an address may be that of another one, but its keys are the section's and the key
      have hplace : accessor.address = accessor'.address := by
        rw [hs.isKeyed.address accessor hmem, hs'.isKeyed.address accessor' hmem', haddress, hkey]
      have hgives : accessor.access = accessor'.access := by
        refine Access.eq_of_recordAccess_eq (fun child child' hchild hchild' hrecord => ?_) haccess
        refine ih accessor hmem child hchild (hs.nested hmem hchild) (hs'.nested hmem' hchild') ?_ hrecord
        rw [hs.isKeyed.nested accessor hmem child hchild, hs'.isKeyed.nested accessor' hmem' child' hchild', hplace]
      obtain ⟨identifier, key, address, access⟩ := accessor
      obtain ⟨identifier', key', address', access'⟩ := accessor'
      obtain rfl : identifier = identifier' := Identifier.text_injective hidentifier
      obtain rfl : key = key' := hkey
      obtain rfl : address = address' := hplace
      obtain rfl : access = access' := hgives
      rfl
    obtain ⟨address, depth, accessors, hasLookup⟩ := s
    obtain ⟨address', depth', accessors', hasLookup'⟩ := s'
    obtain rfl : address = address' := haddress
    obtain rfl : depth = depth' := hdepth
    obtain rfl : accessors = accessors' := hsame
    obtain rfl : hasLookup = hasLookup' := hlookup
    rfl

/-! ## Notices and schemas -/

theorem Notice.record_injective : Function.Injective Notice.record := by
  rintro (⟨level, first, second, ⟨identifier⟩, ⟨resolved⟩⟩ | ⟨address⟩ | ⟨address⟩)
      (⟨level', first', second', ⟨identifier'⟩, ⟨resolved'⟩⟩ | ⟨address'⟩ | ⟨address'⟩) h
  all_goals
    simp only [record, Value.object.injEq, List.cons.injEq, Prod.mk.injEq, Value.string.injEq, true_and, and_true,
      String.reduceEq, false_and] at h
  · obtain ⟨rfl, rfl, rfl, rfl, rfl⟩ := h
    rfl
  · rw [h]
  · rw [h]

mutual

/-- No float is in a record. -/
theorem lacksFloats_record : ∀ s : Section, s.record.lacksFloats = true
  | ⟨address, depth, accessors, hasLookup⟩ => by
    rw [Section.record, Value.lacksFloats_object]
    simp only [List.forall_mem_cons, List.not_mem_nil, false_imp_iff, implies_true, and_true]
    exact ⟨rfl, rfl, Value.lacksFloats_array.mpr (lacksFloats_recordAccessors accessors), rfl⟩

theorem lacksFloats_recordAccessors : ∀ accessors : List Accessor,
    ∀ record ∈ Section.recordAccessors accessors, record.lacksFloats = true
  | [], _, h => by cases h
  | ⟨identifier, key, address, access⟩ :: accessors, record, h => by
    rcases List.mem_cons.mp h with rfl | h
    · rw [Value.lacksFloats_object]
      simp only [List.forall_mem_cons, List.not_mem_nil, false_imp_iff, implies_true, and_true]
      exact ⟨rfl, rfl, rfl, lacksFloats_recordAccess access⟩
    · exact lacksFloats_recordAccessors accessors record h

theorem lacksFloats_recordAccess : ∀ access : Access, (Section.recordAccess access).lacksFloats = true
  | .scalar kind => rfl
  | .list => rfl
  | .nested child => by
    rw [Section.recordAccess, Value.lacksFloats_object, List.forall_mem_singleton]
    exact lacksFloats_record child

end

theorem Notice.lacksFloats_record (notice : Notice) : notice.record.lacksFloats = true := by
  cases notice <;> rfl

theorem Schema.lacksFloats_record (schema : Schema) : schema.record.lacksFloats = true := by
  rw [record, Value.lacksFloats_object]
  simp only [List.forall_mem_cons, List.not_mem_nil, false_imp_iff, implies_true, and_true]
  refine ⟨TypedSettings.lacksFloats_record schema.root, Value.lacksFloats_array.mpr fun value h => ?_⟩
  obtain ⟨notice, -, rfl⟩ := List.mem_map.mp h
  exact notice.lacksFloats_record

section Schemas

variable {options options' : Options} {value value' : Value} {schema schema' : Schema}

/-- Schemas with the same record are the same. -/
theorem Schema.eq_of_record_eq (h : Schema.ofValue options value = .ok schema)
    (h' : Schema.ofValue options' value' = .ok schema') (hrecord : schema.record = schema'.record) :
    schema = schema' := by
  obtain ⟨members, rfl⟩ := exists_object h
  obtain ⟨members', rfl⟩ := exists_object h'
  simp only [record, Value.object.injEq, List.cons.injEq, Prod.mk.injEq, Value.array.injEq, true_and,
    and_true] at hrecord
  have hroot : schema.root = schema'.root := Section.eq_of_record_eq (isAddressed_of_ofValue h)
    (isAddressed_of_ofValue h') ((address_root h).trans (address_root h').symm) hrecord.1
  have hnotices : schema.notices = schema'.notices := Notice.record_injective.list_map hrecord.2
  obtain ⟨root, notices⟩ := schema
  obtain ⟨root', notices'⟩ := schema'
  obtain rfl : root = root' := hroot
  obtain rfl : notices = notices' := hnotices
  rfl

/-- **The record of a schema loses nothing**, as a value and as a text at any depth. -/
theorem ofValue_record_inj (h : Schema.ofValue options value = .ok schema)
    (h' : Schema.ofValue options' value' = .ok schema') :
    (schema.record = schema'.record ↔ schema = schema') ∧
      ∀ depth, schema.record.prettyChars depth = schema'.record.prettyChars depth ↔ schema = schema' := by
  have hrecord : schema.record = schema'.record ↔ schema = schema' :=
    ⟨Schema.eq_of_record_eq h h', congrArg Schema.record⟩
  refine ⟨hrecord, fun depth => ⟨fun htext => hrecord.mp ?_, fun hschema => by rw [hschema]⟩⟩
  exact Value.prettyChars_inj schema.lacksFloats_record schema'.lacksFloats_record htext

/-- The hypotheses are met by documents in which keys with colons lead to the same address text on different ways. -/
theorem ofValue_record_inj_colons : ∃ schema,
    Schema.ofValue {} (.object [("a", .object [("b:c", .null)])]) = .ok schema ∧ ∃ schema',
    Schema.ofValue { onNull := .string } (.object [("a:b", .object [("c", .null)])]) = .ok schema' ∧
    schema.notices = [.nullSkipped "a:b:c"] ∧ schema'.notices = [.nullAsString "a:b:c"] ∧
    (schema.record = schema'.record ↔ schema = schema') ∧
      ∀ depth, schema.record.prettyChars depth = schema'.record.prettyChars depth ↔ schema = schema' := by
  refine exists_of_isOk (by decide) fun schema h => exists_of_isOk (by decide) fun schema' h' => ⟨?_, ?_, ?_⟩
  · exact eq_of_toOption_map_eq h (by decide)
  · exact eq_of_toOption_map_eq h' (by decide)
  · exact ofValue_record_inj h h'

end Schemas

end TypedSettings
