import TypedSettings.Proofs.Schema.Names

/-!
# Which documents have a schema

A document has a schema unless something in it stops the generation: it is no object, or it holds a null or a collision
where the options reject these (`Options.Accepts`). The error names what stopped it (`SchemaError.IsOffence`).

* `Pass.ne_null`, `Pass.nodup_keptKeys`: a pass has nothing at its level that stops it, and every object below has a
  pass of its own (`Pass.exists_of_mem_objectsBelow`);
* `isIn_of_accessorsOf`: an error of the generation is in one of the objects that it saw;
* `ofValue_decides`: the options accept just the documents that have a schema.
-/

namespace TypedSettings

/-! ## What stops the generation -/

/-- The keys of the members that are not skipped. -/
def keptKeys (onNull : OnNull) (members : List (String × Value)) : List String :=
  (members.filter fun member => onNull.exposes member.2).map Prod.fst

/-- An error names a null or a collision in one of the given objects, of a kind that the options reject. -/
inductive SchemaError.IsIn (options : Options) (objects : List (Address × List (String × Value))) :
    SchemaError → Prop
  | null {level : Address} {members : List (String × Value)} {key : String} : options.onNull = .error →
      (level, members) ∈ objects → (key, .null) ∈ members →
      IsIn options objects (.nullRejected (level.child key).text)
  | collision {level : Address} {members : List (String × Value)} {first second : String} {identifier : Identifier} :
      options.onCollision = .error → (level, members) ∈ objects →
      [first, second].Sublist (keptKeys options.onNull members) → .ofKey first = identifier →
      .ofKey second = identifier → IsIn options objects (.nameCollision level.levelName first second identifier)

/-- An error names what stops the generation for a document. -/
inductive SchemaError.IsOffence (options : Options) (value : Value) : SchemaError → Prop
  | root : (∀ members, value ≠ .object members) → IsOffence options value (.rootNotObject value.kindName)
  | inside {error : SchemaError} : error.IsIn options (value.objects .root) → IsOffence options value error

/-- Nothing in a document stops the generation. -/
structure Options.Accepts (options : Options) (value : Value) : Prop where
  root : ∃ members, value = .object members
  nulls : options.onNull = .error → ∀ object ∈ value.objects .root, ∀ member ∈ object.2, member.2 ≠ .null
  collisions : options.onCollision = .error → ∀ object ∈ value.objects .root,
    ((keptKeys options.onNull object.2).map Identifier.ofKey).Nodup

/-- The options decide whether a document has a schema, and an error names an offence. -/
structure Options.Decides (options : Options) (value : Value) : Prop where
  accepts : (∃ schema, Schema.ofValue options value = .ok schema) ↔ options.Accepts value
  offence : ∀ error, Schema.ofValue options value = .error error → error.IsOffence options value

/-! ## Passes hold nothing that stops them -/

section Passes

variable {options : Options} {level : Address} {depth : Nat} {owners : Owners} {members : List (String × Value)}
  {accessors : List Accessor} {notices : List Notice}

theorem Leaf.ne_null {onNull : OnNull} {address : Address} {value : Value} {access : Access} {told : List Notice}
    (h : Leaf onNull address value access told) (hnull : onNull = .error) : value ≠ .null := by
  rintro rfl
  cases h with
  | null hstring => rw [hstring] at hnull; cases hnull

theorem Pass.ne_null (h : Pass options level depth owners members accessors notices) :
    options.onNull = .error → ∀ member ∈ members, member.2 ≠ .null := by
  induction h with
  | done => exact fun _ _ hmem => by cases hmem
  | skipped hskip _ _ =>
    intro hnull
    rw [hskip] at hnull
    cases hnull
  | leaf hleaf _ _ ih =>
    intro hnull member hmem
    rcases List.mem_cons.mp hmem with rfl | hmem
    · exact hleaf.ne_null hnull
    · exact ih hnull member hmem
  | object _ _ _ _ ih =>
    intro hnull member hmem
    rcases List.mem_cons.mp hmem with rfl | hmem
    · exact fun e => by cases e
    · exact ih hnull member hmem

/-- Where collisions are rejected, a key gets its own identifier. -/
theorem Named.eq_ofKey {onCollision : OnCollision} {key : String} {identifier : Identifier} {collision : List Notice}
    (h : Named onCollision owners level key identifier collision) (herror : onCollision = .error) :
    identifier = .ofKey key := by
  cases h with
  | natural _ => rfl
  | renamed hsuffix _ => rw [hsuffix] at herror; cases herror

theorem keptKeys_cons_of_exposes {onNull : OnNull} {key : String} {value : Value} (h : onNull.exposes value = true)
    (members : List (String × Value)) : keptKeys onNull ((key, value) :: members) = key :: keptKeys onNull members := by
  rw [keptKeys, List.filter_cons_of_pos (by simpa using h), List.map_cons, keptKeys]

theorem keptKeys_append (onNull : OnNull) (members more : List (String × Value)) :
    keptKeys onNull (members ++ more) = keptKeys onNull members ++ keptKeys onNull more := by
  rw [keptKeys, List.filter_append, List.map_append, keptKeys, keptKeys]

theorem Pass.map_identifier (h : Pass options level depth owners members accessors notices) :
    options.onCollision = .error →
    accessors.map Accessor.identifier = (keptKeys options.onNull members).map Identifier.ofKey := by
  induction h with
  | done => exact fun _ => rfl
  | skipped hskip _ ih =>
    rw [keptKeys, List.filter_cons_of_neg (by simp [hskip, OnNull.exposes])]
    exact ih
  | leaf hleaf hnamed _ ih =>
    intro herror
    rw [keptKeys_cons_of_exposes hleaf.exposes, List.map_cons, List.map_cons, ih herror, hnamed.eq_ofKey herror]
  | object _ hnamed _ _ ih =>
    intro herror
    rw [keptKeys_cons_of_exposes (exposes_object _ _), List.map_cons, List.map_cons, ih herror,
      hnamed.eq_ofKey herror]

/-- Where collisions are rejected, no two keys of a level have the same identifier. -/
theorem Pass.nodup_keptKeys (h : Pass options level depth owners members accessors notices)
    (herror : options.onCollision = .error) : ((keptKeys options.onNull members).map Identifier.ofKey).Nodup :=
  h.map_identifier herror ▸ h.freshIn.1

/-- **Every object below a level has a pass of its own.** -/
theorem Pass.exists_of_mem_objectsBelow (h : Pass options level depth owners members accessors notices) :
    ∀ object ∈ Value.objectsBelow level members, ∃ depth accessors notices,
      Pass options object.1 depth .empty object.2 accessors notices := by
  induction h with
  | done => exact fun _ hmem => by cases hmem
  | skipped _ _ ih => exact ih
  | leaf hleaf _ _ ih =>
    rw [Value.objectsBelow, Value.objects_eq_nil _ hleaf.ne_object]
    exact ih
  | object hinner _ _ ihInner ih =>
    intro object hmem
    rcases List.mem_append.mp hmem with hmem | hmem
    · rcases List.mem_cons.mp hmem with rfl | hmem
      · exact ⟨_, _, _, hinner⟩
      · exact ihInner object hmem
    · exact ih object hmem

/-- **A document with a schema is accepted.** -/
theorem accepts_of_ofValue {schema : Schema} (h : Schema.ofValue options (.object members) = .ok schema) :
    options.Accepts (.object members) := by
  obtain ⟨accessors, -, hroot⟩ := exists_pass h
  have hpasses : ∀ object ∈ (Value.object members).objects .root, ∃ depth accessors notices,
      Pass options object.1 depth .empty object.2 accessors notices := by
    intro object hmem
    rcases List.mem_cons.mp hmem with rfl | hmem
    · exact ⟨_, _, _, hroot⟩
    · exact hroot.exists_of_mem_objectsBelow object hmem
  refine ⟨⟨members, rfl⟩, fun hnull object hmem => ?_, fun herror object hmem => ?_⟩
  · obtain ⟨_, _, _, hpass⟩ := hpasses object hmem
    exact hpass.ne_null hnull
  · obtain ⟨_, _, _, hpass⟩ := hpasses object hmem
    exact hpass.nodup_keptKeys herror

end Passes

/-! ## Errors name an offence -/

section Errors

variable {options : Options} {error : SchemaError}

theorem SchemaError.IsIn.mono {objects objects' : List (Address × List (String × Value))}
    (h : error.IsIn options objects) (hsub : objects ⊆ objects') : error.IsIn options objects' := by
  cases h with
  | null hnull hmem hmember => exact .null hnull (hsub hmem) hmember
  | collision herror hmem hkeys hfirst hsecond => exact .collision herror (hsub hmem) hkeys hfirst hsecond

/-- Every owner in a table is one of the given keys, and owns its own identifier. -/
def Owners.OwnedBy (keys : List String) (owners : Owners) : Prop :=
  ∀ identifier first, owners.owner? identifier = some first → first ∈ keys ∧ .ofKey first = identifier

theorem Owners.OwnedBy.give {owners : Owners} {keys : List String} (h : owners.OwnedBy keys) (key : String) :
    (owners.give (.ofKey key) key).OwnedBy (keys ++ [key]) := by
  intro identifier first hfirst
  rw [Owners.owner?_give] at hfirst
  split at hfirst
  · rename_i hidentifier
    cases hfirst
    exact ⟨List.mem_append_right keys (List.mem_singleton.mpr rfl), hidentifier.symm⟩
  · obtain ⟨hmem, hown⟩ := h identifier first hfirst
    exact ⟨List.mem_append_left _ hmem, hown⟩

theorem Owners.name_eq_error {owners : Owners} {onCollision : OnCollision} {level : Address} {key : String}
    (h : owners.name onCollision level key = .error error) : onCollision = .error ∧
      ∃ first, owners.owner? (.ofKey key) = some first ∧
        error = .nameCollision level.levelName first key (.ofKey key) := by
  simp only [Owners.name] at h
  cases howner : owners.owner? (.ofKey key) with
  | none => simp only [howner, reduceCtorEq] at h
  | some first =>
    cases onCollision with
    | suffix => simp only [howner, reduceCtorEq] at h
    | error =>
      simp only [howner, Except.error.injEq] at h
      exact ⟨rfl, first, rfl, h.symm⟩

/-- A value fails as a null that is rejected, or as an object with an offence inside. -/
def FailsAs (options : Options) (address : Address) (value : Value) (error : SchemaError) : Prop :=
  value = .null ∧ options.onNull = .error ∧ error = .nullRejected address.text ∨
    error.IsIn options (value.objects address)

theorem ComesOf.exposes {address : Address} {depth : Nat} {value : Value} {access : Access} {told : List Notice}
    (h : ComesOf options address depth value (some access) told) : options.onNull.exposes value = true := by
  rcases h with hleaf | ⟨inner, _, rfl, -, -⟩
  · exact hleaf.exposes
  · exact exposes_object _ inner

mutual

/-- **An error is in one of the objects that were seen.** `before` are the members of the level that come before the
given ones; where collisions are rejected, their keys are the owners. -/
theorem isIn_of_accessorsOf : ∀ {members : List (String × Value)} (before : List (String × Value)) {level : Address}
    {depth : Nat} {owners : Owners}, Schema.accessorsOf options level depth owners members = .error error →
    (options.onCollision = .error → owners.OwnedBy (keptKeys options.onNull before)) →
    error.IsIn options ((level, before ++ members) :: Value.objectsBelow level members)
  | [], _, _, _, _, h, _ => by cases h
  | (key, value) :: members, before, level, depth, owners, h, howned => by
    -- what is found in the members behind, with this one before them
    have hbehind : ∀ {owners : Owners},
        Schema.accessorsOf options level depth owners members = .error error →
        (options.onCollision = .error → owners.OwnedBy (keptKeys options.onNull (before ++ [(key, value)]))) →
        error.IsIn options
          ((level, before ++ (key, value) :: members) :: Value.objectsBelow level ((key, value) :: members)) := by
      intro owners hmembers howned
      have hin := isIn_of_accessorsOf _ hmembers howned
      rw [List.append_assoc, List.singleton_append] at hin
      exact hin.mono (List.cons_subset_cons _ (List.subset_append_right _ _))
    rw [Schema.accessorsOf, bind_eq_error] at h
    rcases h with hvalue | ⟨⟨access, told⟩, hvalue, h⟩
    · rcases failsAs_of_accessOf hvalue with ⟨rfl, hnull, rfl⟩ | hin
      · exact .null hnull List.mem_cons_self (List.mem_append_right _ List.mem_cons_self)
      · exact hin.mono (List.Subset.trans (List.subset_append_left _ _) (List.subset_cons_self _ _))
    · have hcomes := comesOf_accessOf hvalue
      cases access with
      | none =>
        obtain ⟨rfl, hskip, -⟩ := hcomes
        rcases bind_eq_error.mp h with hmembers | ⟨_, _, h⟩
        · refine hbehind hmembers fun herror => ?_
          have hkept : keptKeys options.onNull [(key, .null)] = [] := by simp [keptKeys, hskip, OnNull.exposes]
          rw [keptKeys_append, hkept, List.append_nil]
          exact howned herror
        · cases h
      | some access =>
        have hkept : ∀ rest, keptKeys options.onNull (before ++ (key, value) :: rest) =
            keptKeys options.onNull before ++ key :: keptKeys options.onNull rest := fun rest => by
          rw [keptKeys_append, keptKeys_cons_of_exposes (ComesOf.exposes hcomes)]
        rcases bind_eq_error.mp h with hname | ⟨⟨identifier, owners', collision⟩, hname, h⟩
        · obtain ⟨herror, first, hfirst, rfl⟩ := Owners.name_eq_error hname
          obtain ⟨hmem, hown⟩ := howned herror _ _ hfirst
          refine .collision herror List.mem_cons_self ?_ hown rfl
          rw [hkept]
          exact (List.singleton_sublist.mpr hmem).append (List.singleton_sublist.mpr List.mem_cons_self)
        · rcases bind_eq_error.mp h with hmembers | ⟨_, _, h⟩
          · obtain ⟨rfl, hnamed⟩ := Owners.name_eq_ok hname
            refine hbehind hmembers fun herror => ?_
            rw [hkept, hnamed.eq_ofKey herror]
            exact (howned herror).give key
          · cases h

theorem failsAs_of_accessOf : ∀ {value : Value} {address : Address} {depth : Nat},
    Schema.accessOf options address depth value = .error error → FailsAs options address value error
  | .object inner, address, depth, h => by
    rw [Schema.accessOf] at h
    rcases bind_eq_error.mp h with hinner | ⟨_, _, h⟩
    · exact Or.inr (isIn_of_accessorsOf [] hinner fun _ _ _ hfirst => by cases hfirst)
    · cases h
  | .null, address, _, h => by
    simp only [Schema.accessOf, Schema.nullAccess] at h
    split at h
    · cases h
    · cases h
    · rename_i hnull
      cases h
      exact Or.inl ⟨rfl, hnull, rfl⟩
  | .array _, _, _, h => by cases h
  | .string _, _, _, h => by cases h
  | .bool _, _, _, h => by cases h
  | .integer _, _, _, h => by cases h
  | .float _, _, _, h => by cases h

end

/-- An error of the generation names an offence. -/
theorem isOffence_of_ofValue {value : Value} (h : Schema.ofValue options value = .error error) :
    error.IsOffence options value := by
  cases value with
  | object members =>
    rw [Schema.ofValue] at h
    rcases bind_eq_error.mp h with hmembers | ⟨_, _, h⟩
    · exact .inside (isIn_of_accessorsOf [] hmembers fun _ _ _ hfirst => by cases hfirst)
    · cases h
  | _ =>
    cases h
    exact .root fun _ e => by cases e

/-- Two keys of one identifier are a repetition among the identifiers. -/
theorem not_nodup_of_sublist {keys : List String} {first second : String}
    (hkeys : [first, second].Sublist keys) (heq : Identifier.ofKey first = .ofKey second) :
    ¬(keys.map Identifier.ofKey).Nodup := by
  intro hnd
  have hpair := hnd.sublist (hkeys.map Identifier.ofKey)
  simp [heq] at hpair

/-- **An accepted document has no offence.** -/
theorem Options.Accepts.not_isOffence {value : Value} (h : options.Accepts value) : ¬error.IsOffence options value := by
  intro hoffence
  cases hoffence with
  | root hroot =>
    obtain ⟨members, rfl⟩ := h.root
    exact hroot members rfl
  | inside hin =>
    cases hin with
    | null hnull hmem hmember => exact h.nulls hnull _ hmem _ hmember rfl
    | collision herror hmem hkeys hfirst hsecond =>
      exact not_nodup_of_sublist hkeys (hfirst.trans hsecond.symm) (h.collisions herror _ hmem)

end Errors

/-! ## The decision -/

/-- **The options decide which documents have a schema**, and an error names what stopped the generation. -/
theorem ofValue_decides (options : Options) (value : Value) : options.Decides value := by
  refine ⟨⟨?_, fun haccepts => ?_⟩, fun error => isOffence_of_ofValue⟩
  · rintro ⟨schema, h⟩
    cases value with
    | object members => exact accepts_of_ofValue h
    | _ => cases h
  · cases h : Schema.ofValue options value with
    | ok schema => exact ⟨schema, rfl⟩
    | error error => exact absurd (isOffence_of_ofValue h) haccepts.not_isOffence

/-- A null is no key that counts, and the two keys that meet are those of the inner object. -/
example : Schema.ofValue { onCollision := .error }
      (.object [("a", .object [("b", .null), ("c-d", .bool true), ("cD", .bool true)])]) =
    .error (.nameCollision "a" "c-d" "cD" ⟨"CD"⟩) := by rfl

end TypedSettings
