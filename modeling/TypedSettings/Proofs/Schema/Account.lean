import TypedSettings.Proofs.Schema.Mirror
import TypedSettings.Proofs.Schema.Owners

/-!
# Notices account for what is not exposed as it stands

Every member that is reached through objects has an account (`Account`): the accessor that exposes it, or none for a
null that is skipped, and what is told about it. The accounts of a document, in the order of the pass, list every member
once, every accessor once and every notice once (`Pass.accounts`), so that nothing is dropped and nothing told twice.

Read by kind (`ofValue_isAccounted`), the notices about nulls are those of the null members, and the collisions belong
one to one to the accessors that do not have the identifier of their key.
-/

namespace TypedSettings

/-! ## Exposures -/

/-- An accessor of a section, with those that stand before it there. -/
structure Exposure where
  owner : Section
  before : List Accessor
  accessor : Accessor

namespace Section

mutual

/-- The accessors of a section and of those inside it, each behind those of the section that it nests. -/
def exposures : Section → List Exposure
  | ⟨address, depth, accessors, hasLookup⟩ => exposuresFrom ⟨address, depth, accessors, hasLookup⟩ [] accessors

/-- The last accessors of a section, and those of the sections inside them. -/
def exposuresFrom (owner : Section) (before : List Accessor) : List Accessor → List Exposure
  | [] => []
  | ⟨identifier, key, address, access⟩ :: accessors =>
    exposuresIn access ++ ⟨owner, before, ⟨identifier, key, address, access⟩⟩ ::
      exposuresFrom owner (before ++ [⟨identifier, key, address, access⟩]) accessors

/-- The accessors of the section that an access reaches, and of those inside it. -/
def exposuresIn : Access → List Exposure
  | .nested child => exposures child
  | .scalar _ => []
  | .list => []

end

end Section

/-- An accessor exposes a member: its section stands for the member's object, and it has the member's key and
address. -/
structure Exposure.Exposes (exposure : Exposure) (member : Member) : Prop where
  level : exposure.owner.address = member.level
  key : exposure.accessor.key = member.key
  address : exposure.accessor.address = member.address

/-- Whether an accessor has another identifier than its key. -/
def Exposure.isRenamed (exposure : Exposure) : Bool :=
  exposure.accessor.identifier ≠ .ofKey exposure.accessor.key

/-- A notice tells why an accessor is renamed: an earlier one of the same section has the identifier of its key. -/
inductive Exposure.Collides (exposure : Exposure) : Notice → Prop
  | intro {first : Accessor} : first ∈ exposure.before → first.identifier = .ofKey exposure.accessor.key →
      Collides exposure (.nameCollision exposure.owner.address.levelName first.key exposure.accessor.key
        (.ofKey exposure.accessor.key) exposure.accessor.identifier)

/-! ## Accounts -/

/-- What becomes of a member, and what is told about it. -/
structure Account where
  member : Member
  exposure? : Option Exposure
  told : List Notice

/-- What is told about the identifier of an accessor: nothing, or one collision if it is renamed. -/
inductive Exposure.Tells (exposure : Exposure) : List Notice → Prop
  | natural : exposure.isRenamed = false → Tells exposure []
  | renamed {notice : Notice} : exposure.isRenamed = true → exposure.Collides notice → Tells exposure [notice]

/-- An account is right: a skipped null has one notice and no accessor, and any other member has an accessor, where what
is told about a null comes before what is told about the identifier. -/
inductive Account.IsRight (onNull : OnNull) : Account → Prop
  | skipped {member : Member} : onNull = .skip → member.value = .null →
      IsRight onNull ⟨member, none, [.nullSkipped member.address.text]⟩
  | null {member : Member} {exposure : Exposure} {collision : List Notice} : onNull = .string → member.value = .null →
      exposure.Exposes member → exposure.Tells collision →
      IsRight onNull ⟨member, some exposure, .nullAsString member.address.text :: collision⟩
  | value {member : Member} {exposure : Exposure} {collision : List Notice} : member.value ≠ .null →
      exposure.Exposes member → exposure.Tells collision → IsRight onNull ⟨member, some exposure, collision⟩

/-- Whether a notice tells of a collision. -/
def Notice.isCollision : Notice → Bool
  | .nameCollision .. => true
  | _ => false

/-- What is to be told about a null. -/
def Member.nullNotices (onNull : OnNull) (member : Member) : List Notice :=
  match onNull, member.value with
  | .skip, .null => [.nullSkipped member.address.text]
  | .string, .null => [.nullAsString member.address.text]
  | _, _ => []

/-! ## The exposures of a section are its accessors -/

/-- An accessor stands in its section behind the earlier ones. -/
def Exposure.Stands (exposure : Exposure) : Prop :=
  ∃ after, exposure.owner.accessors = exposure.before ++ exposure.accessor :: after

/-- An accessor of the owner stands among the last ones given, where `before` are the ones before them. -/
def Exposure.StandsIn (owner : Section) (before accessors : List Accessor) (exposure : Exposure) : Prop :=
  exposure.owner = owner ∧
    ∃ mid after, accessors = mid ++ exposure.accessor :: after ∧ exposure.before = before ++ mid

theorem Exposure.standsIn_cons {owner : Section} {before accessors : List Accessor} {accessor : Accessor}
    {exposure : Exposure} : exposure.StandsIn owner before (accessor :: accessors) ↔
      exposure = ⟨owner, before, accessor⟩ ∨ exposure.StandsIn owner (before ++ [accessor]) accessors := by
  constructor
  · rintro ⟨howner, mid, after, haccessors, hbefore⟩
    cases mid with
    | nil =>
      cases haccessors
      rw [List.append_nil] at hbefore
      exact Or.inl (by rw [← howner, ← hbefore])
    | cons first mid =>
      cases haccessors
      exact Or.inr ⟨howner, mid, after, rfl, by rw [hbefore, List.append_assoc, List.singleton_append]⟩
  · rintro (rfl | ⟨howner, mid, after, rfl, hbefore⟩)
    · exact ⟨rfl, [], accessors, rfl, (List.append_nil before).symm⟩
    · exact ⟨howner, accessor :: mid, after, rfl, by rw [hbefore, List.append_assoc, List.singleton_append]⟩

namespace Section

variable {exposure : Exposure}

mutual

/-- **Every accessor is listed where it stands**, and nothing else is. -/
theorem mem_exposures : ∀ {s : Section}, exposure ∈ s.exposures ↔ exposure.owner ∈ s.walk ∧ exposure.Stands
  | ⟨address, depth, accessors, hasLookup⟩ => by
    rw [exposures, mem_exposuresFrom, walk, List.mem_cons, or_and_right]
    refine or_congr_left (and_congr_right fun howner => ?_)
    rw [Exposure.Stands, howner]
    constructor
    · rintro ⟨mid, after, haccessors, rfl⟩
      exact ⟨after, haccessors⟩
    · exact fun ⟨after, haccessors⟩ => ⟨_, after, haccessors, rfl⟩

theorem mem_exposuresFrom {owner : Section} : ∀ {accessors before : List Accessor},
    exposure ∈ exposuresFrom owner before accessors ↔
      exposure.StandsIn owner before accessors ∨ exposure.owner ∈ walkAccessors accessors ∧ exposure.Stands
  | [], before => by simp [exposuresFrom, walkAccessors, Exposure.StandsIn]
  | ⟨identifier, key, address, access⟩ :: accessors, before => by
    rw [exposuresFrom, List.mem_append, List.mem_cons, mem_exposuresIn, mem_exposuresFrom, walkAccessors,
      List.mem_append, or_and_right, Exposure.standsIn_cons]
    tauto

theorem mem_exposuresIn : ∀ {access : Access},
    exposure ∈ exposuresIn access ↔ exposure.owner ∈ walkAccess access ∧ exposure.Stands
  | .nested _ => mem_exposures
  | .scalar _ => by simp [exposuresIn, walkAccess]
  | .list => by simp [exposuresIn, walkAccess]

end

end Section

/-! ## Owners and earlier accessors -/

/-- The table in which the given accessors own their identifiers. -/
def Owners.ofAccessors (accessors : List Accessor) : Owners :=
  ⟨(accessors.map fun accessor => (accessor.identifier, accessor.key)).reverse⟩

theorem Owners.ofAccessors_append (before : List Accessor) (accessor : Accessor) :
    ofAccessors (before ++ [accessor]) = (ofAccessors before).give accessor.identifier accessor.key := by
  simp [ofAccessors, give]

/-- An owner in such a table is one of the accessors. -/
theorem Owners.exists_of_owner? {before : List Accessor} {identifier : Identifier} {first : String}
    (h : (ofAccessors before).owner? identifier = some first) :
    ∃ accessor ∈ before, accessor.identifier = identifier ∧ accessor.key = first := by
  obtain ⟨entries, others, hsplit, -⟩ := List.lookup_eq_some_iff.mp h
  have hmem : (identifier, first) ∈ (ofAccessors before).entries := by
    rw [hsplit]
    exact List.mem_append_right _ List.mem_cons_self
  obtain ⟨accessor, hacc, he⟩ := List.mem_map.mp (List.mem_reverse.mp hmem)
  exact ⟨accessor, hacc, congrArg Prod.fst he, congrArg Prod.snd he⟩

/-- What is told when a key is named behind earlier accessors. -/
theorem Named.tells {onCollision : OnCollision} {before : List Accessor} {key : String} {identifier : Identifier}
    {collision : List Notice} {owner : Section} {address : Address} {access : Access}
    (h : Named onCollision (.ofAccessors before) owner.address key identifier collision) :
    Exposure.Tells ⟨owner, before, ⟨identifier, key, address, access⟩⟩ collision := by
  have hfree := h.free
  cases h with
  | natural _ => exact .natural (by simp [Exposure.isRenamed])
  | renamed _ hfirst =>
    obtain ⟨first, hmem, hid, rfl⟩ := Owners.exists_of_owner? hfirst
    refine .renamed ?_ (.intro hmem hid)
    -- the identifier of the key is taken, and the one that it gets is free
    have hne : (Owners.ofAccessors before).resolve (.ofKey key) ≠ .ofKey key := by
      intro e
      rw [e, holds_of_owner? hfirst] at hfree
      cases hfree
    simpa [Exposure.isRenamed] using hne

/-! ## The accounts of a pass -/

/-- What is told about a leaf is what is to be told about a null. -/
theorem Leaf.isRight {onNull : OnNull} {member : Member} {access : Access} {told collision : List Notice}
    {exposure : Exposure} (h : Leaf onNull member.address member.value access told) (hexposes : exposure.Exposes member)
    (htells : exposure.Tells collision) : Account.IsRight onNull ⟨member, some exposure, told ++ collision⟩ := by
  obtain ⟨level, key, value⟩ := member
  cases h with
  | null hstring => exact .null hstring rfl hexposes htells
  | _ => exact .value (fun e => by cases e) hexposes htells

theorem Leaf.exposuresIn_eq_nil {onNull : OnNull} {address : Address} {value : Value} {access : Access}
    {told : List Notice} (h : Leaf onNull address value access told) : Section.exposuresIn access = [] := by
  cases h <;> rfl

/-- Accounts of members, which list accessors and notices once each. -/
structure AccountsFor (onNull : OnNull) (accounts : List Account) (members : List Member)
    (exposures : List Exposure) (notices : List Notice) : Prop where
  members : accounts.map Account.member = members
  exposures : accounts.filterMap Account.exposure? = exposures
  notices : accounts.flatMap Account.told = notices
  right : ∀ account ∈ accounts, account.IsRight onNull

section Lists

variable {onNull : OnNull} {accounts accounts' : List Account} {members members' : List Member}
  {exposures exposures' : List Exposure} {notices notices' : List Notice}

theorem AccountsFor.append (h : AccountsFor onNull accounts members exposures notices)
    (h' : AccountsFor onNull accounts' members' exposures' notices') :
    AccountsFor onNull (accounts ++ accounts') (members ++ members') (exposures ++ exposures')
      (notices ++ notices') where
  members := by rw [List.map_append, h.members, h'.members]
  exposures := by rw [List.filterMap_append, h.exposures, h'.exposures]
  notices := by rw [List.flatMap_append, h.notices, h'.notices]
  right := by
    intro account hmem
    rcases List.mem_append.mp hmem with hmem | hmem
    · exact h.right account hmem
    · exact h'.right account hmem

theorem AccountsFor.single {account : Account} (h : account.IsRight onNull) :
    AccountsFor onNull [account] [account.member] account.exposure?.toList account.told where
  members := rfl
  exposures := by cases hexp : account.exposure? <;> simp [hexp]
  notices := by simp
  right := by simpa using h

end Lists

/-- **A pass has an account for every member, accessor and notice.** `before` are the accessors that the section `owner`
has from earlier members of the level. -/
theorem Pass.accounts {options : Options} {level : Address} {depth : Nat} {owners : Owners}
    {members : List (String × Value)} {accessors : List Accessor} {notices : List Notice}
    (h : Pass options level depth owners members accessors notices) :
    ∀ {owner : Section} {before : List Accessor}, owner.address = level → owners = .ofAccessors before →
      ∃ accounts, AccountsFor options.onNull accounts (Value.reachedFrom level members)
        (owner.exposuresFrom before accessors) notices := by
  induction h with
  | done =>
    intro owner before _ _
    exact ⟨[], rfl, rfl, rfl, fun _ hmem => by cases hmem⟩
  | @skipped level _ _ key _ _ _ hskip _ ih =>
    intro owner before hlevel howners
    obtain ⟨accounts, haccounts⟩ := ih hlevel howners
    have hright : Account.IsRight options.onNull
        ⟨⟨level, key, .null⟩, none, [.nullSkipped (level.child key).text]⟩ := .skipped hskip rfl
    exact ⟨_, (AccountsFor.single hright).append haccounts⟩
  | @leaf level _ _ key value _ access identifier _ told collision _ hleaf hnamed _ ih =>
    intro owner before hlevel howners
    subst hlevel howners
    obtain ⟨accounts, haccounts⟩ := ih rfl (Owners.ofAccessors_append before ⟨identifier, key, _, access⟩).symm
    have hright : Account.IsRight options.onNull ⟨⟨owner.address, key, value⟩,
        some ⟨owner, before, ⟨identifier, key, owner.address.child key, access⟩⟩, told ++ collision⟩ :=
      hleaf.isRight ⟨rfl, rfl, rfl⟩ hnamed.tells
    have happend := (AccountsFor.single hright).append haccounts
    rw [Value.reachedFrom, Value.reached_eq_nil _ hleaf.ne_object, Section.exposuresFrom, hleaf.exposuresIn_eq_nil]
    exact ⟨_, happend⟩
  | @object level depth _ key inner _ identifier children _ told collision _ _ hnamed _ ihInner ih =>
    intro owner before hlevel howners
    subst hlevel howners
    let child := Schema.sectionOf (owner.address.child key) (depth + 1) inner children
    let accessor : Accessor := ⟨identifier, key, owner.address.child key, .nested child⟩
    obtain ⟨accountsInner, hinner⟩ := @ihInner child [] rfl rfl
    obtain ⟨accounts, haccounts⟩ := ih rfl (Owners.ofAccessors_append before accessor).symm
    have hright : Account.IsRight options.onNull
        ⟨⟨owner.address, key, .object inner⟩, some ⟨owner, before, accessor⟩, collision⟩ :=
      .value (fun e => by cases e) ⟨rfl, rfl, rfl⟩ hnamed.tells
    -- the members of the object come before its own accessor
    have happend := hinner.append ((AccountsFor.single hright).append haccounts)
    rw [Value.reachedFrom, Value.reached, List.append_assoc]
    exact ⟨_, happend⟩

/-! ## Accounts by kind -/

theorem OnNull.exposes_of_ne_null {onNull : OnNull} {value : Value} (h : value ≠ .null) :
    onNull.exposes value = true := by
  unfold OnNull.exposes
  split
  · contradiction
  · rfl

theorem Member.nullNotices_eq_nil {onNull : OnNull} {member : Member} (h : member.value ≠ .null) :
    member.nullNotices onNull = [] := by
  unfold Member.nullNotices
  split
  · contradiction
  · contradiction
  · rfl

section Kinds

variable {onNull : OnNull} {account : Account}

/-- The accessor of an account exposes its member, where the member is exposed. -/
theorem Account.IsRight.exposed (h : account.IsRight onNull) :
    List.Forall₂ Exposure.Exposes account.exposure?.toList
      ([account.member].filter fun member => onNull.exposes member.value) := by
  cases h with
  | skipped hskip hnull =>
    rw [List.filter_singleton, hskip, hnull]
    exact .nil
  | null hstring hnull hexposes _ =>
    rw [List.filter_singleton, hstring, hnull]
    exact .cons hexposes .nil
  | value hvalue hexposes _ =>
    rw [List.filter_singleton, OnNull.exposes_of_ne_null hvalue]
    exact .cons hexposes .nil

theorem Exposure.Tells.filter_not_isCollision {exposure : Exposure} {collision : List Notice}
    (h : exposure.Tells collision) : (collision.filter fun notice => !notice.isCollision) = [] := by
  cases h with
  | natural => rfl
  | renamed _ h => cases h; rfl

theorem Exposure.Tells.collides {exposure : Exposure} {collision : List Notice} (h : exposure.Tells collision) :
    List.Forall₂ Exposure.Collides ([exposure].filter Exposure.isRenamed) (collision.filter Notice.isCollision) := by
  cases h with
  | natural h =>
    rw [List.filter_singleton, h]
    exact .nil
  | renamed h hcollides =>
    rw [List.filter_singleton, h]
    have hcollides' := hcollides
    cases hcollides with
    | intro => exact .cons hcollides' .nil

/-- What an account tells about nulls is what is to be told about its member. -/
theorem Account.IsRight.nulls (h : account.IsRight onNull) :
    (account.told.filter fun notice => !notice.isCollision) = account.member.nullNotices onNull := by
  cases h with
  | skipped hskip hnull =>
    rw [List.filter_cons_of_pos rfl, List.filter_nil]
    simp only [Member.nullNotices, hskip, hnull]
  | null hstring hnull _ htells =>
    rw [List.filter_cons_of_pos rfl, htells.filter_not_isCollision]
    simp only [Member.nullNotices, hstring, hnull]
  | value hvalue _ htells => rw [htells.filter_not_isCollision, Member.nullNotices_eq_nil hvalue]

/-- What an account tells about collisions is one collision if its accessor is renamed. -/
theorem Account.IsRight.collisions (h : account.IsRight onNull) :
    List.Forall₂ Exposure.Collides (account.exposure?.toList.filter Exposure.isRenamed)
      (account.told.filter Notice.isCollision) := by
  cases h with
  | skipped => exact .nil
  | null _ _ _ htells | value _ _ htells => exact htells.collides

variable {accounts : List Account} {members : List Member} {exposures : List Exposure} {notices : List Notice}

theorem AccountsFor.exposed (h : AccountsFor onNull accounts members exposures notices) :
    List.Forall₂ Exposure.Exposes exposures (members.filter fun member => onNull.exposes member.value) := by
  rw [← h.exposures, ← h.members, List.filterMap_eq_flatMap_toList, List.map_eq_flatMap, List.filter_flatMap]
  exact forall₂_flatMap fun account hmem => (h.right account hmem).exposed

theorem AccountsFor.nulls (h : AccountsFor onNull accounts members exposures notices) :
    (notices.filter fun notice => !notice.isCollision) = members.flatMap (Member.nullNotices onNull) := by
  rw [← h.notices, ← h.members, List.filter_flatMap, List.flatMap_map]
  exact List.flatMap_congr fun account hmem => (h.right account hmem).nulls

theorem AccountsFor.collisions (h : AccountsFor onNull accounts members exposures notices) :
    List.Forall₂ Exposure.Collides (exposures.filter Exposure.isRenamed) (notices.filter Notice.isCollision) := by
  rw [← h.exposures, ← h.notices, List.filterMap_eq_flatMap_toList, List.filter_flatMap, List.filter_flatMap]
  exact forall₂_flatMap fun account hmem => (h.right account hmem).collisions

end Kinds

/-! ## Schemas -/

/-- A schema is accounted for by the document that holds the given members. Its exposures are its accessors, each at an
address of its own; the members, exposures and notices make up accounts in the order of the pass. So a member that keys
lead to has one accessor, or is a null that is skipped and told of; the notices about nulls are those of the members,
and the collisions are those of the renamed accessors, one for each. -/
structure Schema.IsAccounted (onNull : OnNull) (schema : Schema) (members : List (String × Value)) : Prop where
  stands : ∀ exposure, exposure ∈ schema.root.exposures ↔ exposure.owner ∈ schema.root.walk ∧ exposure.Stands
  once : (schema.root.exposures.map (·.accessor.address)).Nodup
  inOrder : ∃ accounts,
    AccountsFor onNull accounts ((Value.object members).reached .root) schema.root.exposures schema.notices
  exposed : ∀ member : Member, (Value.object members).at? member.address.keys = some member.value →
    onNull.exposes member.value = true → ∃! exposure, exposure ∈ schema.root.exposures ∧ exposure.Exposes member
  skipped : ∀ member : Member, (Value.object members).at? member.address.keys = some member.value →
    onNull.exposes member.value = false → (∀ exposure ∈ schema.root.exposures, ¬exposure.Exposes member) ∧
      member.nullNotices onNull = [.nullSkipped member.address.text]
  nulls : (schema.notices.filter fun notice => !notice.isCollision) =
    ((Value.object members).reached .root).flatMap (Member.nullNotices onNull)
  collisions : List.Forall₂ Exposure.Collides (schema.root.exposures.filter Exposure.isRenamed)
    (schema.notices.filter Notice.isCollision)

section Schemas

variable {options : Options} {members : List (String × Value)} {schema : Schema}

theorem exists_accounts (h : Schema.ofValue options (.object members) = .ok schema) :
    ∃ accounts, AccountsFor options.onNull accounts ((Value.object members).reached .root) schema.root.exposures
      schema.notices := by
  obtain ⟨accessors, hroot, hpass⟩ := exists_pass h
  rw [hroot]
  exact hpass.accounts rfl rfl

theorem nullNotices_of_exposes_eq_false {onNull : OnNull} {member : Member}
    (h : onNull.exposes member.value = false) : member.nullNotices onNull = [.nullSkipped member.address.text] := by
  unfold OnNull.exposes at h
  split at h
  · rename_i hnull
    simp only [Member.nullNotices, hnull]
  · cases h

/-- **The notices of a schema account for every member**, and for nothing else. -/
theorem ofValue_isAccounted (hkeys : (Value.object members).hasDistinctKeys = true)
    (h : Schema.ofValue options (.object members) = .ok schema) : schema.IsAccounted options.onNull members := by
  obtain ⟨accounts, haccounts⟩ := exists_accounts h
  have hreached := @Value.nodup_reached _ .root hkeys
  have haddresses : schema.root.exposures.map (·.accessor.address) =
      (((Value.object members).reached .root).filter fun member => options.onNull.exposes member.value).map
        Member.address := by
    rw [← List.forall₂_eq_eq_eq, List.forall₂_map_left_iff, List.forall₂_map_right_iff]
    exact haccounts.exposed.imp fun _ _ hexposes => hexposes.address
  have honce : (schema.root.exposures.map (·.accessor.address)).Nodup :=
    haddresses ▸ hreached.sublist (List.filter_sublist.map _)
  refine ⟨fun _ => Section.mem_exposures, honce, ⟨accounts, haccounts⟩, ?_, ?_, haccounts.nulls, haccounts.collisions⟩
  · intro member hat hexposed
    obtain ⟨exposure, hexposure, hexposes⟩ := exists_mem_of_forall₂ haccounts.exposed.flip member
      (List.mem_filter.mpr ⟨(Value.mem_reached_root hkeys).mpr hat, hexposed⟩)
    refine ⟨exposure, ⟨hexposure, hexposes⟩, fun other hother => ?_⟩
    exact List.inj_on_of_nodup_map honce hother.1 hexposure (hother.2.address.trans hexposes.address.symm)
  · intro member hat hexposed
    refine ⟨fun exposure hexposure hexposes => ?_, nullNotices_of_exposes_eq_false hexposed⟩
    obtain ⟨other, hother, hexposes'⟩ := exists_mem_of_forall₂ haccounts.exposed exposure hexposure
    obtain ⟨hother, hexposed'⟩ := List.mem_filter.mp hother
    have heq : other = member := List.inj_on_of_nodup_map hreached hother ((Value.mem_reached_root hkeys).mpr hat)
      (hexposes'.address.symm.trans hexposes.address)
    rw [heq, hexposed] at hexposed'
    cases hexposed'

/-- The hypotheses are met by a document with a null to skip and collisions at two levels, where those of the inner
level come before that of its own key. -/
theorem ofValue_isAccounted_inner_first : ∃ schema,
    Schema.ofValue {} (.object [("a", .bool true),
      ("A", .object [("b", .null), ("c", .array []), ("C", .bool true)])]) = .ok schema ∧
    schema.notices.map Notice.message = ["`A:b` is null; no accessor generated",
      "keys \"c\" and \"C\" under `A` both normalize to `C`; \"C\" is exposed as `C2`",
      "keys \"a\" and \"A\" under `<root>` both normalize to `A`; \"A\" is exposed as `A2`"] ∧
    schema.IsAccounted .skip [("a", .bool true),
      ("A", .object [("b", .null), ("c", .array []), ("C", .bool true)])] := by
  refine exists_of_isOk (by decide) fun schema h => ⟨?_, ofValue_isAccounted (by decide) h⟩
  apply eq_of_toOption_map_eq h
  decide +kernel

end Schemas

end TypedSettings
