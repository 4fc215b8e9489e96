/-
  **PHYSICAL DEVICES BEHIND THE SHARES THAT WERE USED** (`device.rs`).

  A hardware key sits on the container it was placed on, and is a device of
  its own otherwise.  The leaves of a reconstruction are grouped by device,
  and a tree's custody policy speaks about the groups.
-/
import KeyQuorum.Store
import Mathlib.Data.List.Dedup

namespace KeyQuorum

open List Foundation

structure CustodyPolicy where
  mode : CustodyMode
  minimumPhysicalDevices : Nat
  unlockApproval : UnlockApproval
  deriving DecidableEq, Repr

/-- `UsedLeaf`: a leaf whose share went into a reconstruction. -/
structure UsedLeaf where
  hardwareKeyId : Nat
  leafLabel : String
  deriving DecidableEq, Repr

structure PresentedDevice where
  deviceId : Id16
  slotLabel : Option String
  hardwareKeyIds : List Nat
  leafLabels : List String
  deriving DecidableEq, Repr

section Device

variable [Crypto]

/-! ## §1. Custody. -/

def soloDomain : Bytes := utf8Bytes "KQ-SOLO-DEVICE-v1"

/-- `solo_device_id`: the first 16 bytes of the digest. -/
def soloDeviceId (publicKey : Bytes) : Id16 :=
  ⟨(sha256 (soloDomain ++ publicKey)).bytes.take 16, by simp⟩

namespace Store

variable (db : Store)

def custodyPolicy (keyId : Nat) : Except Error CustodyPolicy :=
  match db.keyRow keyId with
  | none => .error .treeNotFound
  | some row =>
    if row.minimumPhysicalDevices < 256 then
      .ok ⟨row.custodyMode, row.minimumPhysicalDevices, row.unlockApproval⟩
    else .error .invalidDevice

/-- The states of the identities that hold a hardware key's public key, in the joined order. -/
def possessionStates (hardwareKeyId : Nat) : List PossessionState :=
  db.possession.flatMap fun possession =>
    (db.identities.filter fun identity => identity.id = possession.identityId).flatMap
      fun identity => (db.hardwareKeys.filter fun key =>
        key.publicKey = identity.encPublic && key.id = hardwareKeyId).map fun _ => possession.state

/-- `leaf_is_ghost`: the first row decides. -/
def leafIsGhost (hardwareKeyId : Nat) : Bool :=
  (db.possessionStates hardwareKeyId).head? = some .ghost

/-- `device_for_key`: the placement, or the key as its own device. -/
def deviceForKey (key : HardwareKey) : Id16 × Option String :=
  match db.placements.find? (fun placement => placement.hardwareKeyId = key.id) with
  | some placement => (placement.deviceId, some placement.slotLabel)
  | none => (soloDeviceId key.publicKey, none)

def groupLeaf (groups : List PresentedDevice) (leaf : UsedLeaf) (device : Id16 × Option String) :
    List PresentedDevice :=
  if groups.any (fun group => group.deviceId = device.1) then
    groups.map fun group =>
      if group.deviceId = device.1 then
        { group with
          hardwareKeyIds := if leaf.hardwareKeyId ∈ group.hardwareKeyIds then group.hardwareKeyIds
            else group.hardwareKeyIds ++ [leaf.hardwareKeyId]
          leafLabels := group.leafLabels ++ [leaf.leafLabel]
          slotLabel := group.slotLabel.or device.2 }
      else group
  else groups ++ [⟨device.1, device.2, [leaf.hardwareKeyId], [leaf.leafLabel]⟩]

/-- The loop of `classify_devices`. -/
def groupLeaves : List UsedLeaf → List PresentedDevice → Except Error (List PresentedDevice)
  | [], groups => .ok groups
  | leaf :: rest, groups =>
    if db.leafIsGhost leaf.hardwareKeyId then .error .ghostDenied
    else do
      let key ← db.getKey leaf.hardwareKeyId
      groupLeaves rest (groupLeaf groups leaf (db.deviceForKey key))

def classifyDevices (keyId : Nat) (used : List UsedLeaf) : Except Error (List PresentedDevice) :=
  if used.isEmpty then .error .quorumNotMet
  else do
    let policy ← db.custodyPolicy keyId
    let groups ← db.groupLeaves used []
    if policy.mode = .hardware && groups.any (fun group => 1 < group.hardwareKeyIds.dedup.length) then
      .error .custodyViolation
    else .ok groups

def enforceDevices (keyId : Nat) (used : List UsedLeaf) : Except Error (List PresentedDevice) := do
  let groups ← db.classifyDevices keyId used
  let policy ← db.custodyPolicy keyId
  if groups.length < policy.minimumPhysicalDevices then .error .physicalDevicesNotMet
  else .ok groups

/-! ## §2. Grouping by device. -/

def deviceOf (hardwareKeyId : Nat) : Option Id16 :=
  match db.getKey hardwareKeyId with
  | .ok key => some (db.deviceForKey key).1
  | .error _ => none

def deviceCount (used : List UsedLeaf) : Nat :=
  (used.filterMap fun leaf => db.deviceOf leaf.hardwareKeyId).dedup.length

/-- The groups after the leaves `used`: one for each device, with the keys on it. -/
structure Grouped (used : List UsedLeaf) (groups : List PresentedDevice) : Prop where
  nodup : (groups.map PresentedDevice.deviceId).Nodup
  devices : ∀ device, device ∈ groups.map PresentedDevice.deviceId
    ↔ ∃ leaf ∈ used, db.deviceOf leaf.hardwareKeyId = some device
  keys : ∀ group ∈ groups, ∀ key, key ∈ group.hardwareKeyIds
    ↔ ∃ leaf ∈ used, leaf.hardwareKeyId = key ∧ db.deviceOf key = some group.deviceId

/-- A leaf that may contribute: not a ghost, and its key is registered. -/
def Usable (leaf : UsedLeaf) : Prop :=
  db.leafIsGhost leaf.hardwareKeyId = false ∧ ∃ key, db.getKey leaf.hardwareKeyId = .ok key

/-- Leaves that hardware custody accepts together: different keys sit on different devices. -/
def Apart (used : List UsedLeaf) : Prop :=
  ∀ a ∈ used, ∀ b ∈ used, db.deviceOf a.hardwareKeyId = db.deviceOf b.hardwareKeyId →
    a.hardwareKeyId = b.hardwareKeyId

variable {db}

theorem deviceOf_of_getKey (h : db.getKey hardwareKeyId = .ok key) :
    db.deviceOf hardwareKeyId = some (db.deviceForKey key).1 := by
  unfold deviceOf
  rw [h]

theorem Usable.device (h : db.Usable leaf) : ∃ device, db.deviceOf leaf.hardwareKeyId = some device := by
  obtain ⟨-, key, hkey⟩ := h
  exact ⟨_, deviceOf_of_getKey hkey⟩

theorem grouped_nil : db.Grouped [] [] := by
  refine ⟨nodup_nil, fun device => ?_, nofun⟩
  simp

omit [Crypto] in
theorem groupLeaf_deviceIds (groups : List PresentedDevice) (leaf : UsedLeaf)
    (device : Id16 × Option String) :
    (groupLeaf groups leaf device).map PresentedDevice.deviceId
      = if device.1 ∈ groups.map PresentedDevice.deviceId
        then groups.map PresentedDevice.deviceId
        else groups.map PresentedDevice.deviceId ++ [device.1] := by
  unfold groupLeaf
  by_cases hin : device.1 ∈ groups.map PresentedDevice.deviceId
  · have hany : groups.any (fun group => group.deviceId = device.1) := by
      rw [any_eq_true]
      obtain ⟨group, hgroup, heq⟩ := mem_map.mp hin
      exact ⟨group, hgroup, by simpa using heq⟩
    rw [if_pos hany, if_pos hin, map_map]
    refine map_congr_left fun group _ => ?_
    show (if group.deviceId = device.1 then _ else group : PresentedDevice).deviceId = _
    split <;> rfl
  · have hany : ¬ groups.any (fun group => group.deviceId = device.1) := by
      rw [any_eq_true]
      rintro ⟨group, hgroup, heq⟩
      exact hin (mem_map.mpr ⟨group, hgroup, by simpa using heq⟩)
    rw [if_neg hany, if_neg hin, map_append]
    rfl

theorem Grouped.step (h : db.Grouped used groups)
    (hdevice : db.deviceOf leaf.hardwareKeyId = some device.1) :
    db.Grouped (used ++ [leaf]) (groupLeaf groups leaf device) := by
  have hmore : ∀ d, (∃ l ∈ used ++ [leaf], db.deviceOf l.hardwareKeyId = some d)
      ↔ (∃ l ∈ used, db.deviceOf l.hardwareKeyId = some d) ∨ d = device.1 := by
    intro d
    simp only [mem_append, mem_singleton]
    constructor
    · rintro ⟨l, hl | rfl, hd⟩
      · exact .inl ⟨l, hl, hd⟩
      · exact .inr (Option.mem_unique hd hdevice)
    · rintro (⟨l, hl, hd⟩ | rfl)
      · exact ⟨l, .inl hl, hd⟩
      · exact ⟨leaf, .inr rfl, hdevice⟩
  refine ⟨?_, fun d => ?_, ?_⟩
  · rw [groupLeaf_deviceIds]
    split
    next => exact h.nodup
    next hnew =>
      exact nodup_snoc h.nodup hnew
  · rw [hmore, ← h.devices, groupLeaf_deviceIds]
    split
    next hin =>
      constructor
      · exact .inl
      · rintro (hd | rfl)
        · exact hd
        · exact hin
    next => simp
  · intro group hgroup key
    have hkeys : (∃ l ∈ used ++ [leaf], l.hardwareKeyId = key ∧ db.deviceOf key = some group.deviceId)
        ↔ (∃ l ∈ used, l.hardwareKeyId = key ∧ db.deviceOf key = some group.deviceId)
          ∨ (leaf.hardwareKeyId = key ∧ group.deviceId = device.1) := by
      simp only [mem_append, mem_singleton]
      constructor
      · rintro ⟨l, hl | rfl, rfl, hd⟩
        · exact .inl ⟨l, hl, rfl, hd⟩
        · exact .inr ⟨rfl, Option.mem_unique hd hdevice⟩
      · rintro (⟨l, hl, hk, hd⟩ | ⟨rfl, hd⟩)
        · exact ⟨l, .inl hl, hk, hd⟩
        · exact ⟨leaf, .inr rfl, rfl, hd ▸ hdevice⟩
    rw [hkeys]
    unfold groupLeaf at hgroup
    split at hgroup
    next =>
      obtain ⟨old, hold, rfl⟩ := mem_map.mp hgroup
      by_cases hsame : old.deviceId = device.1
      · rw [if_pos hsame] at hkeys ⊢
        simp only [hsame, and_true]
        rw [← hsame, ← h.keys old hold key]
        split
        next hin =>
          constructor
          · exact .inl
          · rintro (hk | rfl)
            · exact hk
            · exact hin
        next => simp [eq_comm]
      · rw [if_neg hsame] at hkeys ⊢
        simp only [hsame, and_false, or_false]
        exact h.keys old hold key
    next hnew =>
      rcases mem_append.mp hgroup with hold | hlast
      · have hother : group.deviceId ≠ device.1 := by
          intro heq
          exact hnew (any_eq_true.mpr ⟨group, hold, by simpa using heq⟩)
        simp only [hother, and_false, or_false]
        exact h.keys group hold key
      · obtain rfl := mem_singleton.mp hlast
        have hnone : ¬ ∃ l ∈ used, l.hardwareKeyId = key ∧ db.deviceOf key = some device.1 := by
          rintro ⟨l, hl, rfl, hd⟩
          obtain ⟨g, hg, hid⟩ := mem_map.mp ((h.devices device.1).mpr ⟨l, hl, hd⟩)
          exact hnew (any_eq_true.mpr ⟨g, hg, by simpa using hid⟩)
        simp only [hnone, false_or, and_true, mem_singleton]
        exact eq_comm

theorem groupLeaves_ok (hgrouped : db.Grouped used groups) (h : db.groupLeaves rest groups = .ok result) :
    (∀ leaf ∈ rest, db.Usable leaf) ∧ db.Grouped (used ++ rest) result := by
  induction rest generalizing used groups with
  | nil =>
    cases h
    rw [append_nil]
    exact ⟨nofun, hgrouped⟩
  | cons leaf rest ih =>
    obtain ⟨hghost, h⟩ := else_ok h
    obtain ⟨key, hkey, h⟩ := try_ok h
    obtain ⟨hall, hresult⟩ := ih (hgrouped.step (deviceOf_of_getKey hkey)) h
    rw [append_assoc, singleton_append] at hresult
    refine ⟨fun other hother => ?_, hresult⟩
    rcases mem_cons.mp hother with rfl | hother
    · exact ⟨by simpa using hghost, key, hkey⟩
    · exact hall other hother

theorem groupLeaves_of_usable (groups : List PresentedDevice)
    (h : ∀ leaf ∈ rest, db.Usable leaf) : ∃ result, db.groupLeaves rest groups = .ok result := by
  induction rest generalizing groups with
  | nil => exact ⟨groups, rfl⟩
  | cons leaf rest ih =>
    obtain ⟨hghost, key, hkey⟩ := h leaf (.head _)
    unfold groupLeaves
    rw [hghost, hkey]
    exact ih _ fun other hother => h other (.tail _ hother)

theorem groupLeaves_error (hkeys : ∀ leaf ∈ rest, ∃ key, db.getKey leaf.hardwareKeyId = .ok key)
    (h : db.groupLeaves rest groups = .error e) : e = .ghostDenied := by
  induction rest generalizing groups with
  | nil => exact absurd h (by simp [groupLeaves])
  | cons leaf rest ih =>
    unfold groupLeaves at h
    split at h
    next => exact (Except.error.inj h).symm
    next =>
      obtain ⟨key, hkey⟩ := hkeys leaf (.head _)
      rw [hkey] at h
      exact ih (fun other hother => hkeys other (.tail _ hother)) h

/-- **One group for each device.** -/
theorem Grouped.length (h : db.Grouped used groups) : groups.length = db.deviceCount used := by
  rw [← @length_map _ _ groups PresentedDevice.deviceId]
  refine ((perm_ext_iff_of_nodup h.nodup (nodup_dedup _)).mpr fun device => ?_).length_eq
  rw [mem_dedup, mem_filterMap, h.devices]

theorem Grouped.apart (h : db.Grouped used groups) (husable : ∀ leaf ∈ used, db.Usable leaf) :
    groups.any (fun group => 1 < group.hardwareKeyIds.dedup.length) = false ↔ db.Apart used := by
  rw [any_eq_false]
  constructor
  · intro hsmall a ha b hb hsame
    obtain ⟨device, hdevice⟩ := (husable a ha).device
    obtain ⟨group, hgroup, hid⟩ := mem_map.mp ((h.devices device).mpr ⟨a, ha, hdevice⟩)
    have hain : a.hardwareKeyId ∈ group.hardwareKeyIds.dedup :=
      mem_dedup.mpr ((h.keys group hgroup _).mpr ⟨a, ha, rfl, hid ▸ hdevice⟩)
    have hbin : b.hardwareKeyId ∈ group.hardwareKeyIds.dedup :=
      mem_dedup.mpr ((h.keys group hgroup _).mpr ⟨b, hb, rfl, hid ▸ hsame ▸ hdevice⟩)
    have hone := hsmall group hgroup
    rw [decide_eq_true_eq, Nat.not_lt] at hone
    match hlist : group.hardwareKeyIds.dedup, hone, hain, hbin with
    | [], _, hain, _ => exact absurd hain not_mem_nil
    | [key], _, hain, hbin =>
      rw [mem_singleton.mp hain, mem_singleton.mp hbin]
    | _ :: _ :: _, hone, _, _ =>
      rw [length_cons, length_cons] at hone
      omega
  · intro hapart group hgroup hmany
    match hlist : group.hardwareKeyIds.dedup, hmany with
    | [], hmany => exact absurd hmany (by simp)
    | [_], hmany => exact absurd hmany (by simp)
    | first :: second :: rest, _ =>
      have hmem : ∀ key ∈ [first, second], key ∈ group.hardwareKeyIds := by
        intro key hkey
        rw [← mem_dedup, hlist]
        simp only [mem_cons, not_mem_nil, or_false] at hkey ⊢
        rcases hkey with rfl | rfl <;> simp
      obtain ⟨a, ha, rfl, hda⟩ := (h.keys group hgroup first).mp (hmem first (by simp))
      obtain ⟨b, hb, rfl, hdb⟩ := (h.keys group hgroup second).mp (hmem second (by simp))
      have hnodup := nodup_dedup group.hardwareKeyIds
      rw [hlist] at hnodup
      exact (nodup_cons.mp hnodup).1 (by
        rw [hapart a ha b hb (hda.trans hdb.symm)]
        exact mem_cons_self)

/-! ## §3. The policy. -/

/-- What a custody mode asks of the leaves used: known keys, no ghosts, and in hardware mode no
device behind two different keys. -/
structure Acceptable (db : Store) (mode : CustodyMode) (used : List UsedLeaf) : Prop where
  usable : ∀ leaf ∈ used, db.Usable leaf
  apart : mode = .hardware → db.Apart used

/-- **What the grouping accepts.** -/
theorem classifyDevices_ok (h : db.classifyDevices keyId used = .ok groups) :
    ∃ policy, db.custodyPolicy keyId = .ok policy ∧ used ≠ [] ∧ db.Acceptable policy.mode used
      ∧ groups.length = db.deviceCount used := by
  obtain ⟨hne, h⟩ := else_ok h
  obtain ⟨policy, hpolicy, h⟩ := try_ok h
  obtain ⟨result, hresult, h⟩ := try_ok h
  obtain ⟨husable, hgrouped⟩ := groupLeaves_ok grouped_nil hresult
  obtain ⟨hok, h⟩ := else_ok h
  cases h
  refine ⟨policy, hpolicy, by simpa using hne, ⟨husable, fun hmode => ?_⟩, hgrouped.length⟩
  rw [hmode] at hok
  exact (hgrouped.apart husable).mp (by simpa using hok)

theorem classifyDevices_of_acceptable (hpolicy : db.custodyPolicy keyId = .ok policy) (hne : used ≠ [])
    (h : db.Acceptable policy.mode used) :
    ∃ groups, db.classifyDevices keyId used = .ok groups ∧ groups.length = db.deviceCount used := by
  obtain ⟨groups, hgroups⟩ := groupLeaves_of_usable [] h.usable
  have hgrouped := (groupLeaves_ok grouped_nil hgroups).2
  refine ⟨groups, ?_, hgrouped.length⟩
  unfold classifyDevices
  rw [if_neg (by simpa using hne), hpolicy, except_ok_bind, hgroups, except_ok_bind, if_neg]
  intro hbad
  rw [Bool.and_eq_true, decide_eq_true_eq] at hbad
  rw [(hgrouped.apart h.usable).mpr (h.apart hbad.1)] at hbad
  exact absurd hbad.2 (by simp)

theorem classifyDevices_error (hpolicy : db.custodyPolicy keyId = .ok policy)
    (hkeys : ∀ leaf ∈ used, ∃ key, db.getKey leaf.hardwareKeyId = .ok key)
    (h : db.classifyDevices keyId used = .error e) :
    e = .quorumNotMet ∨ e = .ghostDenied ∨ e = .custodyViolation := by
  unfold classifyDevices at h
  split at h
  next => exact .inl (Except.error.inj h).symm
  next =>
    rw [hpolicy, except_ok_bind] at h
    cases hgroups : db.groupLeaves used [] with
    | error e' =>
      rw [hgroups] at h
      obtain rfl := Except.error.inj h
      exact .inr (.inl (groupLeaves_error hkeys hgroups))
    | ok groups =>
      rw [hgroups, except_ok_bind] at h
      split at h
      next => exact .inr (.inr (Except.error.inj h).symm)
      next => cases h

structure Meets (db : Store) (policy : CustodyPolicy) (used : List UsedLeaf) : Prop
    extends Acceptable db policy.mode used where
  enough : policy.minimumPhysicalDevices ≤ db.deviceCount used

/-- **What the final check accepts.** -/
theorem enforceDevices_ok_iff :
    (∃ groups, db.enforceDevices keyId used = .ok groups) ↔
      used ≠ [] ∧ ∃ policy, db.custodyPolicy keyId = .ok policy ∧ db.Meets policy used := by
  constructor
  · rintro ⟨groups, h⟩
    obtain ⟨groups', hgroups, h⟩ := try_ok h
    obtain ⟨policy, hpolicy, hne, hacceptable, hlength⟩ := classifyDevices_ok hgroups
    rw [hpolicy, except_ok_bind] at h
    obtain ⟨hmin, h⟩ := else_ok h
    exact ⟨hne, policy, hpolicy, hacceptable, by omega⟩
  · rintro ⟨hne, policy, hpolicy, hmeets⟩
    obtain ⟨groups, hgroups, hlength⟩ :=
      classifyDevices_of_acceptable hpolicy hne hmeets.toAcceptable
    have hmin := hmeets.enough
    refine ⟨groups, ?_⟩
    unfold enforceDevices
    rw [hgroups, except_ok_bind, hpolicy, except_ok_bind, if_neg (by omega)]

end Store

end Device

end KeyQuorum
