/-
  **PARENT APPROVAL OF AN UNLOCK** (`authority.rs`).

  A tree may ask that every leaf of a reconstruction is approved by its
  direct parent.  The parent signs a digest that binds the file, the tree,
  the leaf and the devices presented; `requireUnlockApproval` looks for one
  such signature for every leaf.
-/
import KeyQuorum.Device
import KeyQuorum.Keys
import KeyQuorum.Authority
import KeyQuorum.Signing

namespace KeyQuorum

open List Foundation

/-- `UnlockGrant`: a signature presented for one leaf. -/
structure UnlockGrant where
  leafLabel : String
  countersignerLabel : String
  signature : Signature
  deriving DecidableEq, Repr

/-- `device_ids.sort()`: strings of one length compare as the numbers they denote. -/
def sortIds (ids : List Id16) : List Id16 :=
  ids.insertionSort fun a b => ofBe a.bytes ≤ ofBe b.bytes

/-! ## §1. What is signed. -/

/-- The arguments of `unlock_approval_preimage`. -/
structure Approval where
  fileId : UInt64
  keyId : UInt64
  leafLabel : String
  countersignerLabel : String
  deviceIds : List Id16
  deriving DecidableEq, Repr

def unlockDomain : Bytes := utf8Bytes "KQ-UNLOCK-APPROVAL-v1"

namespace Approval

/-- What the hasher of `unlock_approval_preimage` is fed. -/
def input (approval : Approval) : Except Error Bytes := do
  let leaf ← hashLenPrefixed (utf8Bytes approval.leafLabel)
  let countersigner ← hashLenPrefixed (utf8Bytes approval.countersignerLabel)
  let count ← pushCount 2 approval.deviceIds.length
  .ok (unlockDomain ++ (u64Bytes approval.fileId ++ (u64Bytes approval.keyId ++ (leaf
    ++ (countersigner ++ (count ++ approval.deviceIds.flatMap FixedBytes.bytes))))))

/-- `unlock_approval_preimage`. -/
def preimage [Crypto] (approval : Approval) : Except Error Digest := do
  let bytes ← approval.input
  .ok (sha256 bytes)

theorem u64Bytes_append_inj (h : u64Bytes a ++ x = u64Bytes b ++ y) : a = b ∧ x = y := by
  obtain ⟨hword, hrest⟩ := append_inj h (by simp)
  exact ⟨by rw [← ofBe_u64Bytes a, hword, ofBe_u64Bytes], hrest⟩

theorem flatMap_bytes_inj : ∀ {as bs : List (FixedBytes n)}, as.length = bs.length →
    as.flatMap FixedBytes.bytes = bs.flatMap FixedBytes.bytes → as = bs := by
  intro as
  induction as with
  | nil =>
    intro bs hlen _
    exact (length_eq_zero_iff.mp hlen.symm).symm
  | cons a as ih =>
    intro bs hlen heq
    cases bs with
    | nil => cases hlen
    | cons b bs =>
      obtain ⟨hfirst, hrest⟩ := append_inj heq (by simp)
      rw [FixedBytes.ext_bytes hfirst, ih (Nat.succ.inj hlen) hrest]

/-- **The bytes hashed determine the approval.** -/
theorem input_injective {a b : Approval} (ha : a.input = .ok bytes) (hb : b.input = .ok bytes) :
    a = b := by
  obtain ⟨leafA, hleafA, ha⟩ := try_ok ha
  obtain ⟨signerA, hsignerA, ha⟩ := try_ok ha
  obtain ⟨countA, hcountA, ha⟩ := try_ok ha
  obtain ⟨leafB, hleafB, hb⟩ := try_ok hb
  obtain ⟨signerB, hsignerB, hb⟩ := try_ok hb
  obtain ⟨countB, hcountB, hb⟩ := try_ok hb
  have heq := append_cancel_left ((Except.ok.inj ha).trans (Except.ok.inj hb).symm)
  -- the fields come off the front one after the other: each is fixed-width or carries its length
  obtain ⟨hfile, heq⟩ := u64Bytes_append_inj heq
  obtain ⟨hkey, heq⟩ := u64Bytes_append_inj heq
  obtain ⟨hleaf, heq⟩ := takeLenPrefixed_inverts.injective hleafA hleafB heq
  obtain ⟨hsigner, heq⟩ := takeLenPrefixed_inverts.injective hsignerA hsignerB heq
  obtain ⟨hcount, heq⟩ := (takeCount_inverts 2).injective hcountA hcountB heq
  have hdevices := flatMap_bytes_inj hcount heq
  cases a
  cases b
  simp only at hfile hkey hleaf hsigner hdevices
  rw [hfile, hkey, utf8Bytes_inj hleaf, utf8Bytes_inj hsigner, hdevices]

theorem preimage_ok [Crypto] {approval : Approval} (h : approval.preimage = .ok digest) :
    ∃ bytes, approval.input = .ok bytes ∧ digest = sha256 bytes := by
  obtain ⟨bytes, hbytes, h⟩ := try_ok h
  exact ⟨bytes, hbytes, (Except.ok.inj h).symm⟩

end Approval

/-! ## §2. The check. -/

section Check

variable [Crypto]

namespace Store

def approvalOf (keyId fileId : Nat) (deviceIds : List Id16) (leafLabel parent : String) : Approval :=
  ⟨UInt64.ofNat fileId, UInt64.ofNat keyId, leafLabel, parent, deviceIds⟩

/-- One round of the loop of `require_unlock_approval`. -/
def requireGrant (db : Store) (keyId fileId : Nat) (deviceIds : List Id16)
    (grants : List UnlockGrant) (leaf : UsedLeaf) : Except Error Unit :=
  match parentNodeLabel leaf.leafLabel with
  | none => .error .unlockApprovalRequired
  | some parent => do
      let preimage ← (approvalOf keyId fileId deviceIds leaf.leafLabel parent).preimage
      match grants.find? fun grant =>
          grant.leafLabel = leaf.leafLabel && grant.countersignerLabel = parent with
      | none => .error .unlockApprovalRequired
      | some grant => do
          let publicKey ← db.signingPublicForLabel parent
          verifySignature publicKey preimage.bytes grant.signature

/-- The loop of `require_unlock_approval`. -/
def requireGrants (db : Store) (keyId fileId : Nat) (deviceIds : List Id16)
    (grants : List UnlockGrant) : List UsedLeaf → Except Error Unit
  | [] => .ok ()
  | leaf :: rest => do
      db.requireGrant keyId fileId deviceIds grants leaf
      db.requireGrants keyId fileId deviceIds grants rest

def requireUnlockApproval (db : Store) (keyId fileId : Nat) (leaves : List UsedLeaf)
    (devices : List PresentedDevice) (grants : List UnlockGrant) : Except Error Unit := do
  let policy ← db.custodyPolicy keyId
  if policy.unlockApproval ≠ .parent then .ok ()
  else db.requireGrants keyId fileId (sortIds (devices.map PresentedDevice.deviceId)) grants leaves

/-- A leaf is approved: one of the grants carries a signature of its direct parent, under the key
registered for it, over this file, this tree, this leaf and these devices. -/
structure Approved (db : Store) (keyId fileId : Nat) (deviceIds : List Id16)
    (grants : List UnlockGrant) (leaf : UsedLeaf) (parent : String) (publicKey digest : Digest) :
    Prop where
  parent_eq : parentNodeLabel leaf.leafLabel = some parent
  registered : db.SignsWith parent publicKey
  preimage : (approvalOf keyId fileId deviceIds leaf.leafLabel parent).preimage = .ok digest
  granted : ∃ grant ∈ grants, grant.leafLabel = leaf.leafLabel ∧ grant.countersignerLabel = parent
    ∧ verifySignature publicKey digest.bytes grant.signature = .ok ()

variable {db : Store} {keyId fileId : Nat} {deviceIds : List Id16} {grants : List UnlockGrant}

theorem requireGrant_ok (h : db.requireGrant keyId fileId deviceIds grants leaf = .ok ()) :
    ∃ parent publicKey digest,
      db.Approved keyId fileId deviceIds grants leaf parent publicKey digest := by
  unfold requireGrant at h
  split at h
  next => cases h
  next parent hparent =>
    obtain ⟨digest, hdigest, h⟩ := try_ok h
    split at h
    next => cases h
    next grant hgrant =>
      obtain ⟨publicKey, hpublic, hverify⟩ := try_ok h
      have hlabels := List.find?_some hgrant
      rw [Bool.and_eq_true, decide_eq_true_eq, decide_eq_true_eq] at hlabels
      exact ⟨parent, publicKey, digest, hparent, signingPublicForLabel_ok hpublic, hdigest,
        grant, mem_of_find?_eq_some hgrant, hlabels.1, hlabels.2, hverify⟩

variable {leaves : List UsedLeaf} {devices : List PresentedDevice}

theorem requireGrants_ok (h : db.requireGrants keyId fileId deviceIds grants leaves = .ok ()) :
    ∀ leaf ∈ leaves, db.requireGrant keyId fileId deviceIds grants leaf = .ok () := by
  induction leaves with
  | nil =>
    intro leaf hleaf
    cases hleaf
  | cons first rest ih =>
    obtain ⟨_, hfirst, h⟩ := try_ok h
    intro leaf hleaf
    rcases mem_cons.mp hleaf with rfl | hleaf
    · exact hfirst
    · exact ih h leaf hleaf

/-- **What the check accepts.** -/
theorem requireUnlockApproval_ok
    (h : db.requireUnlockApproval keyId fileId leaves devices grants = .ok ()) :
    ∃ policy, db.custodyPolicy keyId = .ok policy ∧ (policy.unlockApproval = .parent →
      ∀ leaf ∈ leaves, ∃ parent publicKey digest, db.Approved keyId fileId
        (sortIds (devices.map PresentedDevice.deviceId)) grants leaf parent publicKey digest) := by
  obtain ⟨policy, hpolicy, h⟩ := try_ok h
  refine ⟨policy, hpolicy, fun happroval leaf hleaf => ?_⟩
  rw [if_neg (not_not.mpr happroval)] at h
  exact requireGrant_ok (requireGrants_ok h leaf hleaf)

theorem mem_sortIds_devices (h : db.enforceDevices keyId leaves = .ok devices) (device : Id16) :
    device ∈ sortIds (devices.map PresentedDevice.deviceId)
      ↔ ∃ leaf ∈ leaves, db.deviceOf leaf.hardwareKeyId = some device := by
  obtain ⟨groups, hgroups, h⟩ := try_ok h
  obtain ⟨policy, -, h⟩ := try_ok h
  obtain ⟨-, h⟩ := else_ok h
  cases h
  obtain ⟨-, hgroups⟩ := else_ok hgroups
  obtain ⟨_, -, hgroups⟩ := try_ok hgroups
  obtain ⟨found, hfound, hgroups⟩ := try_ok hgroups
  obtain ⟨-, hgroups⟩ := else_ok hgroups
  cases hgroups
  have hgrouped := (groupLeaves_ok grouped_nil hfound).2
  rw [nil_append] at hgrouped
  unfold sortIds
  rw [mem_insertionSort, hgrouped.devices]

end Store

end Check

end KeyQuorum
