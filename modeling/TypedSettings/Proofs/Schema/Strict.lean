import TypedSettings.Proofs.Schema.Pass

/-!
# Strict choices stop at the first offence

A choice is lenient if the generation goes on and tells of what it met, and strict if it stops there. A strict run makes
the schema of the lenient one as long as no notice of that one is an offence, and stops with the error of the first
offence otherwise (`Schema.Judged`).

* `Options.StopsAt`: a strict choice stops one step where the notices of the lenient step have an offence;
* `Pass.judged`: so does a run, since the offences of one step come before those of the next;
* `exists_pass_of_lenient`: lenient choices never stop;
* `ofValue_strictAgrees`: what this says about collisions and about nulls.
-/

namespace TypedSettings

/-! ## Judging by notices -/

section Judge

variable {α β : Type} {offence : Notice → Option SchemaError} {told more : List Notice} {a : α}

/-- A result, or the error of the first offence among what is told. -/
def judge (offence : Notice → Option SchemaError) (told : List Notice) (a : α) : Except SchemaError α :=
  match told.findSome? offence with
  | none => .ok a
  | some error => .error error

/-- The offences of a first step come before those of the next. -/
theorem judge_bind {f : α → Except SchemaError β} {b : β} (h : f a = judge offence more b) :
    (judge offence told a >>= f) = judge offence (told ++ more) b := by
  rw [judge, judge, List.findSome?_append]
  cases told.findSome? offence with
  | none => exact h
  | some error => rfl

theorem judge_map {f : α → β} : (judge offence told a >>= fun a => pure (f a)) = judge offence told (f a) := by
  rw [judge, judge]
  cases told.findSome? offence <;> rfl

theorem judge_none : judge (fun _ => none) told a = .ok a := by
  have hnone : told.findSome? (fun _ => (none : Option SchemaError)) = none :=
    List.findSome?_eq_none_iff.mpr fun _ _ => rfl
  rw [judge, hnone]

end Judge

/-! ## Runs of strict choices -/

/-- Strict choices stop where what the lenient ones tell about a null or a key has an offence. -/
structure Options.StopsAt (offence : Notice → Option SchemaError) (strict lenient : Options) : Prop where
  null {address : Address} {access : Option Access} {told : List Notice} :
    Schema.nullAccess lenient.onNull address = .ok (access, told) →
    Schema.nullAccess strict.onNull address = judge offence told (access, told)
  name {owners : Owners} {level : Address} {key : String} {identifier : Identifier} {collision : List Notice} :
    Named lenient.onCollision owners level key identifier collision →
    owners.name strict.onCollision level key =
      judge offence collision (identifier, owners.give identifier key, collision)

section Runs

variable {offence : Notice → Option SchemaError} {strict lenient : Options} {level address : Address} {depth : Nat}
  {owners : Owners} {members : List (String × Value)} {accessors : List Accessor} {key : String} {value : Value}
  {access : Access} {identifier : Identifier} {told collision notices : List Notice}

theorem Leaf.judged (h : Leaf lenient.onNull address value access told) (hstops : strict.StopsAt offence lenient) :
    Schema.accessOf strict address depth value = judge offence told (some access, told) := by
  cases h with
  | null hstring => exact hstops.null (by rw [hstring]; rfl)
  | _ => rfl

/-- A member with an accessor: its value comes first, then its key, then the members behind it. -/
theorem accessorsOf_cons_judged
    (haccess : Schema.accessOf strict (level.child key) depth value = judge offence told (some access, told))
    (hname : owners.name strict.onCollision level key =
      judge offence collision (identifier, owners.give identifier key, collision))
    (hmembers : Schema.accessorsOf strict level depth (owners.give identifier key) members =
      judge offence notices (accessors, notices)) :
    Schema.accessorsOf strict level depth owners ((key, value) :: members) =
      judge offence (told ++ collision ++ notices)
        (⟨identifier, key, level.child key, access⟩ :: accessors, told ++ collision ++ notices) := by
  rw [Schema.accessorsOf, haccess, List.append_assoc]
  refine judge_bind ?_
  dsimp only
  rw [hname]
  refine judge_bind ?_
  dsimp only
  rw [hmembers, ← List.append_assoc]
  exact judge_map

/-- **A strict run stops at the first offence of the lenient one.** -/
theorem Pass.judged (h : Pass lenient level depth owners members accessors notices)
    (hstops : strict.StopsAt offence lenient) :
    Schema.accessorsOf strict level depth owners members = judge offence notices (accessors, notices) := by
  induction h with
  | done => rfl
  | skipped hskip _ ih =>
    rw [Schema.accessorsOf, Schema.accessOf, hstops.null (by rw [hskip]; rfl)]
    refine judge_bind ?_
    dsimp only
    rw [ih]
    exact judge_map
  | leaf hleaf hnamed _ ih => exact accessorsOf_cons_judged (hleaf.judged hstops) (hstops.name hnamed) ih
  | object _ hnamed _ ihInner ih =>
    refine accessorsOf_cons_judged ?_ (hstops.name hnamed) ih
    rw [Schema.accessOf, ihInner]
    exact judge_map

end Runs

/-! ## Lenient choices never stop -/

theorem exists_named {onCollision : OnCollision} (h : onCollision = .suffix) (owners : Owners) (level : Address)
    (key : String) : ∃ identifier collision, Named onCollision owners level key identifier collision := by
  cases howner : owners.owner? (.ofKey key) with
  | none => exact ⟨_, _, .natural howner⟩
  | some first => exact ⟨_, _, .renamed h howner⟩

theorem Named.name_eq {onCollision : OnCollision} {owners : Owners} {level : Address} {key : String}
    {identifier : Identifier} {collision : List Notice} (h : Named onCollision owners level key identifier collision) :
    owners.name onCollision level key = .ok (identifier, owners.give identifier key, collision) := by
  cases h with
  | natural howner => simp only [Owners.name, howner]
  | renamed hsuffix howner => simp only [Owners.name, howner, hsuffix]

/-- Neither a null nor a collision stops the generation. -/
structure Options.IsLenient (options : Options) : Prop where
  null : options.onNull ≠ .error
  collision : options.onCollision = .suffix

section Lenient

variable {options : Options} (hlenient : options.IsLenient)

include hlenient

mutual

/-- **Lenient choices never stop.** -/
theorem exists_pass_of_lenient (level : Address) (depth : Nat) (owners : Owners) : ∀ members : List (String × Value),
    ∃ accessors notices, Pass options level depth owners members accessors notices
  | [] => ⟨[], [], .done⟩
  | (key, value) :: members => by
    obtain ⟨access, told, hcomes⟩ := exists_comesOf_of_lenient (level.child key) depth value
    cases access with
    | none =>
      obtain ⟨rfl, hskip, rfl⟩ := hcomes
      obtain ⟨accessors, notices, hmembers⟩ := exists_pass_of_lenient level depth owners members
      exact ⟨_, _, .skipped hskip hmembers⟩
    | some access =>
      obtain ⟨identifier, collision, hnamed⟩ := exists_named hlenient.collision owners level key
      obtain ⟨accessors, notices, hmembers⟩ :=
        exists_pass_of_lenient level depth (owners.give identifier key) members
      rcases hcomes with hleaf | ⟨inner, children, rfl, rfl, hinner⟩
      · exact ⟨_, _, .leaf hleaf hnamed hmembers⟩
      · exact ⟨_, _, .object hinner hnamed hmembers⟩

theorem exists_comesOf_of_lenient (address : Address) (depth : Nat) : ∀ value : Value,
    ∃ access told, ComesOf options address depth value access told
  | .object inner => by
    obtain ⟨children, told, hinner⟩ := exists_pass_of_lenient address (depth + 1) .empty inner
    exact ⟨some _, told, Or.inr ⟨inner, children, rfl, rfl, hinner⟩⟩
  | .null => by
    cases honNull : options.onNull with
    | skip => exact ⟨none, _, rfl, honNull, rfl⟩
    | string => exact ⟨some _, _, Or.inl (.null honNull)⟩
    | error => exact absurd honNull hlenient.null
  | .array elements => ⟨some _, _, Or.inl (.array elements)⟩
  | .string s => ⟨some _, _, Or.inl (.string s)⟩
  | .bool b => ⟨some _, _, Or.inl (.bool b)⟩
  | .integer i => ⟨some _, _, Or.inl (.integer i)⟩
  | .float x => ⟨some _, _, Or.inl (.float x)⟩

end

end Lenient

/-! ## Schemas -/

/-- What a strict run gives where the lenient one gives `schema`: the same if no notice is an offence, and otherwise the
error of the first offence. -/
inductive Schema.Judged (offence : Notice → Option SchemaError) (schema : Schema) : Except SchemaError Schema → Prop
  | accepted : (∀ notice ∈ schema.notices, offence notice = none) → Judged offence schema (.ok schema)
  | rejected {before after : List Notice} {notice : Notice} {error : SchemaError} :
      schema.notices = before ++ notice :: after → (∀ earlier ∈ before, offence earlier = none) →
      offence notice = some error → Judged offence schema (.error error)

theorem Schema.judged_judge (offence : Notice → Option SchemaError) (schema : Schema) :
    schema.Judged offence (judge offence schema.notices schema) := by
  rw [judge]
  cases hfirst : schema.notices.findSome? offence with
  | none => exact .accepted (List.findSome?_eq_none_iff.mp hfirst)
  | some error =>
    obtain ⟨before, notice, after, hsplit, hnotice, hbefore⟩ := List.findSome?_eq_some_iff.mp hfirst
    exact .rejected hsplit hbefore hnotice

theorem Pass.ofValue_judged {offence : Notice → Option SchemaError} {strict lenient : Options}
    {members : List (String × Value)} {accessors : List Accessor} {notices : List Notice}
    (h : Pass lenient .root 0 .empty members accessors notices) (hstops : strict.StopsAt offence lenient) :
    Schema.ofValue strict (.object members) =
      judge offence notices ⟨Schema.sectionOf .root 0 members accessors, notices⟩ := by
  rw [Schema.ofValue, h.judged hstops]
  exact judge_map

/-- A pass over a document makes a schema. -/
theorem Pass.ofValue_eq {options : Options} {members : List (String × Value)} {accessors : List Accessor}
    {notices : List Notice} (h : Pass options .root 0 .empty members accessors notices) :
    Schema.ofValue options (.object members) = .ok ⟨Schema.sectionOf .root 0 members accessors, notices⟩ := by
  -- the run is itself one that stops, but at no offence
  have hself : options.StopsAt (fun _ => none) options :=
    ⟨fun h => by rw [judge_none, h], fun h => by rw [judge_none, h.name_eq]⟩
  rw [h.ofValue_judged hself, judge_none]

/-- A lenient run gives a schema, and a strict one is judged by its notices. -/
theorem exists_schema_of_lenient {lenient : Options} (hlenient : lenient.IsLenient) (members : List (String × Value)) :
    ∃ schema, Schema.ofValue lenient (.object members) = .ok schema ∧
      ∀ {offence : Notice → Option SchemaError} {strict : Options}, strict.StopsAt offence lenient →
        Schema.ofValue strict (.object members) = judge offence schema.notices schema := by
  obtain ⟨accessors, notices, hpass⟩ := exists_pass_of_lenient hlenient .root 0 .empty members
  exact ⟨_, hpass.ofValue_eq, hpass.ofValue_judged⟩

/-! ## Collisions and nulls -/

/-- The error that a collision is under the strict choice. -/
def Notice.collisionError? : Notice → Option SchemaError
  | .nameCollision level first second identifier _ => some (.nameCollision level first second identifier)
  | _ => none

/-- The null that a notice tells of under a choice. -/
def Notice.null? : OnNull → Notice → Option String
  | .skip, .nullSkipped address => some address
  | .string, .nullAsString address => some address
  | _, _ => none

/-- The error that a null is under the strict choice. -/
def Notice.nullError? (onNull : OnNull) (notice : Notice) : Option SchemaError :=
  (notice.null? onNull).map .nullRejected

/-- No null is a collision. -/
theorem nullAccess_judged {onNull : OnNull} {address : Address} {access : Option Access} {told : List Notice}
    (h : Schema.nullAccess onNull address = .ok (access, told)) :
    Schema.nullAccess onNull address = judge Notice.collisionError? told (access, told) := by
  cases onNull with
  | skip | string =>
    cases h
    rfl
  | error => cases h

theorem stopsAt_collisions (options : Options) :
    { options with onCollision := .error }.StopsAt Notice.collisionError? { options with onCollision := .suffix } where
  null h := nullAccess_judged h
  name h := by
    cases h with
    | natural howner | renamed _ howner =>
      simp only [Owners.name, howner]
      rfl

theorem stopsAt_nulls (options : Options) {onNull : OnNull} (hnull : onNull ≠ .error) :
    { options with onCollision := .suffix, onNull := .error }.StopsAt (Notice.nullError? onNull)
      { options with onCollision := .suffix, onNull := onNull } where
  null h := by
    cases onNull with
    | skip | string =>
      cases h
      rfl
    | error => exact absurd rfl hnull
  name h := by
    have hname := h.name_eq
    cases h <;> cases onNull <;> exact hname

/-- The three choices about nulls agree: `skipped` comes of skipping them, `asString` of reading them as texts, and
`strict` of the strict choice. -/
structure Schema.NullsAgree (skipped asString : Schema) (strict : Except SchemaError Schema) : Prop where
  bySkipped : skipped.Judged (Notice.nullError? .skip) strict
  byAsString : asString.Judged (Notice.nullError? .string) strict
  same : (∀ notice ∈ skipped.notices, notice.null? .skip = none) → asString = skipped ∧ strict = .ok skipped
  first : skipped.notices.findSome? (Notice.null? .skip) = asString.notices.findSome? (Notice.null? .string)

/-- The strict choices agree with the lenient ones on a document. Only an object has a schema; then a lenient run gives
one, and the strict run is judged by its notices. -/
structure Schema.StrictAgrees (options : Options) (value : Value) : Prop where
  noObject : (∀ members, value ≠ .object members) →
    ∀ options : Options, Schema.ofValue options value = .error (.rootNotObject value.kindName)
  collisions : ∀ members, value = .object members → options.onNull ≠ .error → ∃ schema,
    Schema.ofValue { options with onCollision := .suffix } value = .ok schema ∧
      schema.Judged Notice.collisionError? (Schema.ofValue { options with onCollision := .error } value)
  nulls : ∀ members, value = .object members → ∃ skipped asString,
    Schema.ofValue { options with onCollision := .suffix, onNull := .skip } value = .ok skipped ∧
      Schema.ofValue { options with onCollision := .suffix, onNull := .string } value = .ok asString ∧
      NullsAgree skipped asString (Schema.ofValue { options with onCollision := .suffix, onNull := .error } value)

theorem judge_nullError? (onNull : OnNull) (schema : Schema) :
    judge (Notice.nullError? onNull) schema.notices schema =
      match schema.notices.findSome? (Notice.null? onNull) with
      | none => .ok schema
      | some address => .error (.nullRejected address) := by
  have hmap : schema.notices.findSome? (Notice.nullError? onNull) =
      (schema.notices.findSome? (Notice.null? onNull)).map .nullRejected := List.map_findSome?.symm
  rw [judge, hmap]
  cases schema.notices.findSome? (Notice.null? onNull) <;> rfl

/-- Two schemas by which one strict run is judged agree on the first null, and are the same if there is none. -/
theorem nullsAgree_of_judge {skipped asString : Schema} {strict : Except SchemaError Schema}
    (hskipped : strict = judge (Notice.nullError? .skip) skipped.notices skipped)
    (hasString : strict = judge (Notice.nullError? .string) asString.notices asString) :
    Schema.NullsAgree skipped asString strict := by
  refine ⟨hskipped ▸ Schema.judged_judge _ skipped, hasString ▸ Schema.judged_judge _ asString, fun hnone => ?_, ?_⟩
  · rw [judge_nullError?, List.findSome?_eq_none_iff.mpr hnone] at hskipped
    rw [hskipped, judge_nullError?] at hasString
    refine ⟨?_, hskipped⟩
    cases hfirst : asString.notices.findSome? (Notice.null? .string) with
    | none =>
      rw [hfirst] at hasString
      cases hasString
      rfl
    | some address =>
      rw [hfirst] at hasString
      cases hasString
  · rw [hskipped, judge_nullError?, judge_nullError?] at hasString
    cases hfirst : skipped.notices.findSome? (Notice.null? .skip) <;>
      cases hfirst' : asString.notices.findSome? (Notice.null? .string) <;>
      rw [hfirst, hfirst'] at hasString
    all_goals cases hasString
    all_goals rfl

/-- **The strict choices agree with the lenient ones**, whatever the document. -/
theorem ofValue_strictAgrees (options : Options) (value : Value) : Schema.StrictAgrees options value := by
  refine ⟨fun hvalue options => ?_, ?_, ?_⟩
  · cases value with
    | object members => exact absurd rfl (hvalue members)
    | _ => rfl
  · rintro members rfl hnull
    obtain ⟨schema, hschema, hjudged⟩ :=
      @exists_schema_of_lenient { options with onCollision := .suffix } ⟨hnull, rfl⟩ members
    refine ⟨schema, hschema, ?_⟩
    rw [hjudged (stopsAt_collisions options)]
    exact Schema.judged_judge _ schema
  · rintro members rfl
    have hskip : OnNull.skip ≠ .error := fun h => by cases h
    have hstring : OnNull.string ≠ .error := fun h => by cases h
    obtain ⟨skipped, hskipped, hjudged⟩ :=
      @exists_schema_of_lenient { options with onCollision := .suffix, onNull := .skip } ⟨hskip, rfl⟩ members
    obtain ⟨asString, hasString, hjudged'⟩ :=
      @exists_schema_of_lenient { options with onCollision := .suffix, onNull := .string } ⟨hstring, rfl⟩ members
    exact ⟨skipped, asString, hskipped, hasString,
      nullsAgree_of_judge (hjudged (stopsAt_nulls options hskip)) (hjudged' (stopsAt_nulls options hstring))⟩

end TypedSettings
