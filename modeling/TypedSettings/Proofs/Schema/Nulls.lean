import TypedSettings.Proofs.Schema.Account

/-!
# Nulls rewritten in the document

A policy for nulls that stops nothing is a rewriting of the document. To skip nulls is to take their members away
(`Value.strip`), and to read them as texts is to put an empty text in the place of each (`Value.fill`): the generation
for the document under the policy and the one for the rewritten document under any policy come out alike (`Alike`). They
fail with the same collision, or succeed with the same sections and the same collisions told. A member that is taken
away is missing from the keys of its level, so that only the lookups by raw key may differ there.

The two generations go along the members side by side: `alike_accessorsOf` relates them at a level, and `Alike.bind`
puts related steps together.
-/

namespace TypedSettings

/-! ## Rewritten documents -/

namespace Value

mutual

/-- The value with a replacement for every null that is a member of an object reached through objects. Without a
replacement the member is taken away. -/
def replaceNulls (replacement : Option Value) : Value → Value
  | .object members => .object (replaceNullMembers replacement members)
  | value => value

/-- The members of an object with a replacement for every null in them. -/
def replaceNullMembers (replacement : Option Value) : List (String × Value) → List (String × Value)
  | [] => []
  | (key, .null) :: members => (replacement.map (key, ·)).toList ++ replaceNullMembers replacement members
  | (key, value) :: members => (key, replaceNulls replacement value) :: replaceNullMembers replacement members

end

/-- The value without the null members of the objects that are reached through objects. -/
def strip (value : Value) : Value := value.replaceNulls none

/-- The value with an empty text for each of these members. -/
def fill (value : Value) : Value := value.replaceNulls (some (.string ""))

theorem replaceNullMembers_cons {replacement : Option Value} {value : Value} (h : value ≠ .null) (key : String)
    (members : List (String × Value)) : replaceNullMembers replacement ((key, value) :: members) =
      (key, value.replaceNulls replacement) :: replaceNullMembers replacement members := by
  cases value with
  | null => exact absurd rfl h
  | _ => rfl

/-- A replacement leaves the keys of a level as they are. -/
theorem map_fst_replaceNullMembers (replacement : Value) : ∀ members : List (String × Value),
    (replaceNullMembers (some replacement) members).map Prod.fst = members.map Prod.fst
  | [] => rfl
  | (key, value) :: members => by
    by_cases hnull : value = .null
    · subst hnull
      rw [replaceNullMembers, List.map_append, map_fst_replaceNullMembers replacement members]
      rfl
    · rw [replaceNullMembers_cons hnull, List.map_cons, List.map_cons, map_fst_replaceNullMembers replacement members]

/-- Arrays are left alone, and so is what stands in them. -/
example : (object [("a", null), ("b", object [("c", null), ("d", array [null])])]).strip =
    object [("b", object [("d", array [null])])] := rfl

end Value

/-! ## Sections without their lookups -/

namespace Section

mutual

/-- The section with the lookups of its own and of the sections inside it only where they are to be kept. -/
def masked (keep : Bool) : Section → Section
  | ⟨address, depth, accessors, hasLookup⟩ => ⟨address, depth, maskedAccessors keep accessors, hasLookup && keep⟩

/-- The accessors whose sections keep their lookups or lose them. -/
def maskedAccessors (keep : Bool) : List Accessor → List Accessor
  | [] => []
  | ⟨identifier, key, address, access⟩ :: accessors =>
    ⟨identifier, key, address, maskedAccess keep access⟩ :: maskedAccessors keep accessors

/-- The access whose section keeps its lookups or loses them. -/
def maskedAccess (keep : Bool) : Access → Access
  | .nested child => .nested (masked keep child)
  | .scalar kind => .scalar kind
  | .list => .list

end

/-- The section where neither itself nor a section inside it has a lookup. -/
def withoutLookups (s : Section) : Section := s.masked false

mutual

/-- Where lookups are kept, nothing changes. -/
theorem masked_true : ∀ s : Section, s.masked true = s
  | ⟨_, _, accessors, hasLookup⟩ => by rw [masked, maskedAccessors_true accessors, Bool.and_true]

theorem maskedAccessors_true : ∀ accessors : List Accessor, maskedAccessors true accessors = accessors
  | [] => rfl
  | ⟨_, _, _, access⟩ :: accessors => by rw [maskedAccessors, maskedAccess_true access, maskedAccessors_true accessors]

theorem maskedAccess_true : ∀ access : Access, maskedAccess true access = access
  | .nested child => by rw [maskedAccess, masked_true child]
  | .scalar _ => rfl
  | .list => rfl

end

end Section

/-! ## Generations that come out alike -/

/-- Two generations come out alike: both fail with the same collision, or both succeed with related results. -/
inductive Alike {α : Type} (related : α → α → Prop) : Except SchemaError α → Except SchemaError α → Prop
  | collision (level : String) (first second : String) (identifier : Identifier) :
      Alike related (.error (.nameCollision level first second identifier))
        (.error (.nameCollision level first second identifier))
  | made {a b : α} : related a b → Alike related (.ok a) (.ok b)

namespace Alike

variable {α β : Type} {related : α → α → Prop} {related' : β → β → Prop} {x y : Except SchemaError α}

/-- Steps that come out alike after steps that come out alike do so together. -/
theorem bind (h : Alike related x y) {f g : α → Except SchemaError β}
    (hfg : ∀ a b, related a b → Alike related' (f a) (g b)) : Alike related' (x >>= f) (y >>= g) := by
  cases h with
  | collision level first second identifier => exact .collision level first second identifier
  | made hab => exact hfg _ _ hab

/-- A step on the left alone may follow, if it only changes a result into one that is related still. -/
theorem bind_left (h : Alike related x y) {f : α → Except SchemaError α}
    (hf : ∀ a b, related a b → Alike related (f a) (.ok b)) : Alike related (x >>= f) y := by
  cases h with
  | collision level first second identifier => exact .collision level first second identifier
  | made hab => exact hf _ _ hab

end Alike

/-- Two lists of notices tell of the same collisions, in the same order. -/
def SameCollisions (notices notices' : List Notice) : Prop :=
  notices.filter Notice.isCollision = notices'.filter Notice.isCollision

theorem SameCollisions.append {notices notices' more more' : List Notice} (h : SameCollisions notices notices')
    (hmore : SameCollisions more more') : SameCollisions (notices ++ more) (notices' ++ more') := by
  rw [SameCollisions, List.filter_append, List.filter_append, h, hmore]

/-- Schemas whose sections are related and that tell of the same collisions. -/
structure Schema.SameBut (same : Section → Section → Prop) (schema schema' : Schema) : Prop where
  root : same schema.root schema'.root
  collisions : SameCollisions schema.notices schema'.notices

/-! ## A level and its rewriting -/

/-- What a policy puts in the place of a null, and whether the lookups are the same then. -/
inductive OnNull.Replaces : OnNull → Option Value → Bool → Prop
  | skip : Replaces .skip none false
  | string : Replaces .string (some (.string "")) true

/-- What is made of the members of a level is the same, up to lookups that are not to be kept. -/
structure SameMade (keep : Bool) (made made' : List Accessor × List Notice) : Prop where
  accessors : Section.maskedAccessors keep made.1 = Section.maskedAccessors keep made'.1
  collisions : SameCollisions made.2 made'.2

/-- Two values have accessors that give the same, up to lookups that are not to be kept. -/
inductive SameAccess (keep : Bool) : Option Access × List Notice → Option Access × List Notice → Prop
  | intro {access access' : Access} {notices notices' : List Notice} :
      Section.maskedAccess keep access = Section.maskedAccess keep access' → SameCollisions notices notices' →
      SameAccess keep (some access, notices) (some access', notices')

section Levels

variable {options options' : Options} {replacement : Option Value} {keep : Bool}

/-- The lookup of a level is the same if it is to be kept. -/
theorem OnNull.Replaces.any_eq {onNull : OnNull} (h : onNull.Replaces replacement keep)
    (members : List (String × Value)) : ((members.any fun (key, _) => !Key.isPlain key) && keep) =
      (((Value.replaceNullMembers replacement members).any fun (key, _) => !Key.isPlain key) && keep) := by
  cases h with
  | skip => rw [Bool.and_false, Bool.and_false]
  | string =>
    have hany : ∀ members : List (String × Value), (members.any fun (key, _) => !Key.isPlain key) =
        (members.map Prod.fst).any fun key => !Key.isPlain key := fun members => by
      rw [List.any_map]
      rfl
    rw [hany, hany, Value.map_fst_replaceNullMembers]

/-- A section made of the same is the same. -/
theorem SameMade.sectionOf {onNull : OnNull} {accessors accessors' : List Accessor} {notices notices' : List Notice}
    (h : SameMade keep (accessors, notices) (accessors', notices')) (hreplaces : onNull.Replaces replacement keep)
    (level : Address) (depth : Nat) (members : List (String × Value)) :
    (Schema.sectionOf level depth members accessors).masked keep =
      (Schema.sectionOf level depth (Value.replaceNullMembers replacement members) accessors').masked keep := by
  have haccessors := h.accessors
  dsimp only at haccessors
  rw [Schema.sectionOf, Schema.sectionOf, Section.masked, Section.masked, haccessors, hreplaces.any_eq]

/-- A key gets the same name, and the same is told about it. -/
theorem alike_name (honCollision : options'.onCollision = options.onCollision) (owners : Owners) (level : Address)
    (key : String) : Alike Eq (owners.name options.onCollision level key)
      (owners.name options'.onCollision level key) := by
  rw [honCollision, Owners.name]
  cases howner : owners.owner? (.ofKey key) with
  | none => exact .made rfl
  | some first =>
    cases options.onCollision with
    | error => exact .collision ..
    | suffix => exact .made rfl

/-- Two levels stay the same with one more accessor in front of each. -/
theorem alike_cons {access access' : Access} {told told' : List Notice} {level : Address} {depth : Nat}
    {owners : Owners} {key : String} {members members' : List (String × Value)}
    (honCollision : options'.onCollision = options.onCollision)
    (haccess : SameAccess keep (some access, told) (some access', told'))
    (hmembers : ∀ owners, Alike (SameMade keep) (Schema.accessorsOf options level depth owners members)
      (Schema.accessorsOf options' level depth owners members')) :
    Alike (SameMade keep)
      (do
        let (identifier, owners, collision) ← owners.name options.onCollision level key
        let (accessors, more) ← Schema.accessorsOf options level depth owners members
        return (⟨identifier, key, level.child key, access⟩ :: accessors, told ++ collision ++ more))
      (do
        let (identifier, owners, collision) ← owners.name options'.onCollision level key
        let (accessors, more) ← Schema.accessorsOf options' level depth owners members'
        return (⟨identifier, key, level.child key, access'⟩ :: accessors, told' ++ collision ++ more)) := by
  cases haccess with
  | intro hgives htold =>
    refine (alike_name honCollision owners level key).bind ?_
    rintro ⟨identifier, owners', collision⟩ _ rfl
    refine (hmembers owners').bind ?_
    rintro ⟨accessors, more⟩ ⟨accessors', more'⟩ ⟨haccessors, hmore⟩
    have hcons : Section.maskedAccessors keep (⟨identifier, key, level.child key, access⟩ :: accessors) =
        Section.maskedAccessors keep (⟨identifier, key, level.child key, access'⟩ :: accessors') := by
      dsimp only at haccessors
      rw [Section.maskedAccessors, Section.maskedAccessors, hgives, haccessors]
    exact .made ⟨hcons, (htold.append rfl).append hmore⟩

mutual

/-- **A level under a policy comes out like its rewriting**, whatever is named already. -/
theorem alike_accessorsOf (hreplaces : options.onNull.Replaces replacement keep)
    (honCollision : options'.onCollision = options.onCollision) :
    ∀ (members : List (String × Value)) (level : Address) (depth : Nat) (owners : Owners),
      Alike (SameMade keep) (Schema.accessorsOf options level depth owners members)
        (Schema.accessorsOf options' level depth owners (Value.replaceNullMembers replacement members))
  | [], _, _, _ => .made ⟨rfl, rfl⟩
  | (key, value) :: members, level, depth, owners => by
    have hmembers := alike_accessorsOf hreplaces honCollision members level depth
    by_cases hnull : value = .null
    · subst hnull
      rw [Schema.accessorsOf, Schema.accessOf]
      generalize options.onNull = onNull at hreplaces ⊢
      cases hreplaces with
      | skip =>
        -- no name is claimed, so that the later members find the same table
        refine (hmembers owners).bind_left ?_
        exact fun _ _ hmade => .made ⟨hmade.accessors, hmade.collisions⟩
      | string => exact alike_cons honCollision (.intro rfl rfl) hmembers
    · rw [Value.replaceNullMembers_cons hnull, Schema.accessorsOf, Schema.accessorsOf]
      refine (alike_accessOf hreplaces honCollision value (level.child key) depth hnull).bind ?_
      rintro _ _ haccess
      cases haccess with
      | intro hgives htold => exact alike_cons honCollision (.intro hgives htold) hmembers

theorem alike_accessOf (hreplaces : options.onNull.Replaces replacement keep)
    (honCollision : options'.onCollision = options.onCollision) :
    ∀ (value : Value) (address : Address) (depth : Nat), value ≠ .null →
      Alike (SameAccess keep) (Schema.accessOf options address depth value)
        (Schema.accessOf options' address depth (value.replaceNulls replacement))
  | .object members, address, depth, _ => by
    rw [Value.replaceNulls, Schema.accessOf, Schema.accessOf]
    refine (alike_accessorsOf hreplaces honCollision members address (depth + 1) .empty).bind ?_
    intro made made' hmade
    have hnested : Section.maskedAccess keep (.nested (Schema.sectionOf address (depth + 1) members made.1)) =
        Section.maskedAccess keep (.nested (Schema.sectionOf address (depth + 1)
          (Value.replaceNullMembers replacement members) made'.1)) :=
      congrArg Access.nested (hmade.sectionOf hreplaces address (depth + 1) members)
    exact .made (.intro hnested hmade.collisions)
  | .null, _, _, h => absurd rfl h
  | .array _, _, _, _ => .made (.intro rfl rfl)
  | .string _, _, _, _ => .made (.intro rfl rfl)
  | .bool _, _, _, _ => .made (.intro rfl rfl)
  | .integer _, _, _, _ => .made (.intro rfl rfl)
  | .float _, _, _, _ => .made (.intro rfl rfl)

end

/-- The schemas of a document and of its rewriting come out alike. -/
theorem alike_ofValue (hreplaces : options.onNull.Replaces replacement keep)
    (honCollision : options'.onCollision = options.onCollision) (members : List (String × Value)) :
    Alike (Schema.SameBut fun s s' => s.masked keep = s'.masked keep) (Schema.ofValue options (.object members))
      (Schema.ofValue options' ((Value.object members).replaceNulls replacement)) := by
  rw [Value.replaceNulls, Schema.ofValue, Schema.ofValue]
  refine (alike_accessorsOf hreplaces honCollision members .root 0 .empty).bind ?_
  exact fun _ _ hmade => .made ⟨hmade.sectionOf hreplaces .root 0 members, hmade.collisions⟩

end Levels

/-! ## Policies are rewritings -/

theorem Alike.mono {α : Type} {related related' : α → α → Prop} {x y : Except SchemaError α} (h : Alike related x y)
    (himp : ∀ a b, related a b → related' a b) : Alike related' x y := by
  cases h with
  | collision level first second identifier => exact .collision level first second identifier
  | made hab => exact .made (himp _ _ hab)

/-- **A policy for nulls is a rewriting of the document.** Nulls that are skipped might as well be missing, but for the
lookups; nulls that are read as texts might as well be empty texts. -/
theorem ofValue_replaceNulls (options : Options) (onNull : OnNull) (members : List (String × Value)) :
    Alike (Schema.SameBut fun s s' => s.withoutLookups = s'.withoutLookups)
        (Schema.ofValue { options with onNull := .skip } (.object members))
        (Schema.ofValue { options with onNull } (Value.object members).strip) ∧
      Alike (Schema.SameBut Eq)
        (Schema.ofValue { options with onNull := .string } (.object members))
        (Schema.ofValue { options with onNull } (Value.object members).fill) := by
  have hskip := @alike_ofValue { options with onNull := .skip } { options with onNull } _ _ .skip rfl members
  have hstring := @alike_ofValue { options with onNull := .string } { options with onNull } _ _ .string rfl members
  refine ⟨hskip, hstring.mono ?_⟩
  rintro schema schema' ⟨hroot, hcollisions⟩
  rw [Section.masked_true, Section.masked_true] at hroot
  exact ⟨hroot, hcollisions⟩

end TypedSettings
