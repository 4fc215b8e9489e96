/-
  **THE KEYS OF A PERSON** (`keys.rs`, with the two lookups by label of
  `private_bridge.rs`).

  A label may have any number of registered keys of either purpose.  The
  unrevoked ones are its active keys; a lookup that needs one key answers
  only when there is exactly one.
-/
import KeyQuorum.Store.Statements

namespace KeyQuorum

open Foundation

def vecTo32 (bytes : Bytes) : Except Error Digest :=
  if h : bytes.length = 32 then .ok ⟨bytes, h⟩ else .error .invalidPublicKey

theorem vecTo32_ok (h : vecTo32 bytes = .ok digest) : digest.bytes = bytes := by
  unfold vecTo32 at h
  split at h
  next =>
    cases h
    rfl
  next => cases h

namespace Store

/-! ## §1. Active keys. -/

def activeFor (label : String) (keyType : KeyType) (key : HardwareKey) : Bool :=
  key.label = label && key.keyType = keyType && !key.revoked

/-- `active_keys_for`: oldest first. -/
def activeKeysFor (db : Store) (label : String) (keyType : KeyType) : List HardwareKey :=
  (db.hardwareKeys.filter (activeFor label keyType)).insertionSort fun a b => a.id ≤ b.id

def isActiveKey (db : Store) (label : String) (keyType : KeyType) (publicKey : Bytes) : Bool :=
  (db.activeKeysFor label keyType).any fun key => key.publicKey = publicKey

/-! ## §2. The one key of a label. -/

section Lookup

variable [Crypto]

def signingPublicForLabel (db : Store) (label : String) : Except Error Digest :=
  match db.activeKeysFor label .signing with
  | [key] => do
      let publicKey ← vecTo32 key.publicKey
      if Crypto.validKey publicKey then .ok publicKey else .error .invalidPublicKey
  | [] => .error .nodeNotFound
  | _ => .error .invalidBridge

def SignsWith (db : Store) (label : String) (publicKey : Digest) : Prop :=
  ∃ key, db.activeKeysFor label .signing = [key] ∧ key.publicKey = publicKey.bytes

theorem signingPublicForLabel_ok {db : Store} (h : db.signingPublicForLabel label = .ok publicKey) :
    db.SignsWith label publicKey := by
  unfold signingPublicForLabel at h
  split at h
  next key hkeys =>
    obtain ⟨found, hfound, h⟩ := try_ok h
    obtain ⟨-, h⟩ := then_ok h
    cases h
    exact ⟨key, hkeys, (vecTo32_ok hfound).symm⟩
  next => cases h
  next => cases h

end Lookup

end Store

end KeyQuorum
