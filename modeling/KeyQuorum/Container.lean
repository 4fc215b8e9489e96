/-
  **THE SLOTS OF A DEVICE** (`device.rs`, the containers; `slot_token.rs`).

  A container holds slots; a slot holds a person's two secret keys under a
  passphrase.  On disk a slot is a sealed token and an entry in the signed
  index `device.kq`, written and removed together; here it is one record.
  The token opens with its passphrase and yields the keys whose public
  halves the index names.
-/
import KeyQuorum.Signing
import KeyQuorum.Foundation.First

namespace KeyQuorum

open List Foundation

/-- Public keys of secret keys (crates `crypto_box` and `ed25519_dalek`). -/
class KeyPairs where
  /-- `encryption_public_from_secret`. -/
  encryptionPublic : Digest → Digest
  /-- `SigningKey::from_bytes(seed).verifying_key()`. -/
  signingPublic : Digest → Digest

/-- A slot: a label, the passphrase its token is sealed under, and the two secrets inside. -/
structure SlotRecord where
  label : String
  passphrase : String
  encryptionSecret : Digest
  signingSecret : Digest
  deriving DecidableEq, Repr

def SlotRecord.publicKeys [KeyPairs] (slot : SlotRecord) : Digest × Digest :=
  (KeyPairs.encryptionPublic slot.encryptionSecret, KeyPairs.signingPublic slot.signingSecret)

structure DeviceKey where
  deviceId : Id16
  verifyKey : Digest
  deriving DecidableEq, Repr

/-- `Container`, with the secret in `device.skey`. -/
structure Container where
  deviceId : Id16
  verifyKey : Digest
  deviceSecret : Digest
  slots : List SlotRecord := []
  deriving DecidableEq, Repr

/-- `validate_slot_label`: at most 128 ASCII letters, digits, dots, dashes and underscores, at
least one, and no two dots in a row. -/
def validateSlotLabel (label : String) : Except Error Unit :=
  if label.isEmpty || 128 < (utf8Bytes label).length
      || (label.toList.zip label.toList.tail).any (fun pair => pair.1 = '.' && pair.2 = '.')
      || !label.toList.all (fun c => c.isAlphanum || c = '.' || c = '-' || c = '_') then
    .error .invalidSlot
  else .ok ()

namespace Container

def key (container : Container) : DeviceKey := ⟨container.deviceId, container.verifyKey⟩

def slot (container : Container) (label : String) : Option SlotRecord :=
  container.slots.find? fun slot => slot.label = label

section

variable (container : Container)

/-- `open_slot_in`. -/
def openSlot (label passphrase : String) : Except Error SlotRecord :=
  match container.slot label with
  | none => .error .invalidSlot
  | some slot => do
      validateSlotLabel label
      if slot.passphrase = passphrase then .ok slot else .error .invalidPassword

def withSlot (slot : SlotRecord) : Container :=
  { container with slots := container.slots ++ [slot] }

def withoutSlot (label : String) : Container :=
  { container with slots := container.slots.filter fun slot => slot.label ≠ label }

/-- `install_slot_in`. -/
def installSlot (label passphrase : String)
    (encryptionSecret signingSecret : Digest) : Except Error Container := do
  validateSlotLabel label
  if passphrase.isEmpty then .error .invalidPassword
  else if (container.slot label).isSome then .error .invalidSlot
  else .ok (container.withSlot ⟨label, passphrase, encryptionSecret, signingSecret⟩)

/-- `remove_slot_in`. -/
def removeSlot (label : String) : Except Error Container := do
  validateSlotLabel label
  if (container.slot label).isNone then .error .invalidSlot
  else .ok (container.withoutSlot label)

end

/-- `slot_matches`: whether the slot of a label has these secrets; another key under the label is
refused. -/
def slotMatches [KeyPairs] (container : Container) (label : String)
    (encryptionSecret signingSecret : Digest) : Except Error Bool :=
  match container.slot label with
  | none => .ok false
  | some slot =>
    if slot.publicKeys
        = (KeyPairs.encryptionPublic encryptionSecret, KeyPairs.signingPublic signingSecret) then .ok true
    else .error .invalidSlot

def Holds [KeyPairs] (container : Container) (keys : Digest × Digest) : Prop :=
  ∃ slot ∈ container.slots, slot.publicKeys = keys

section Lemmas

variable {container container' : Container} {label passphrase : String} {slot : SlotRecord}
  {encryptionSecret signingSecret : Digest}

theorem slot_some (h : container.slot label = some slot) :
    slot ∈ container.slots ∧ slot.label = label :=
  ⟨mem_of_find?_eq_some h, by simpa using List.find?_some h⟩

theorem ne_of_slot_none (h : container.slot label = none) (hmem : slot ∈ container.slots) :
    slot.label ≠ label := by
  unfold Container.slot at h
  rw [List.find?_eq_none] at h
  simpa using h slot hmem

theorem openSlot_ok (h : container.openSlot label passphrase = .ok slot) :
    container.slot label = some slot ∧ validateSlotLabel label = .ok ()
      ∧ slot.passphrase = passphrase := by
  unfold openSlot at h
  split at h
  next => cases h
  next found hfound =>
    obtain ⟨_, hvalid, h⟩ := try_ok h
    obtain ⟨hpass, h⟩ := then_ok h
    cases h
    exact ⟨hfound, hvalid, hpass⟩

theorem installSlot_ok
    (h : container.installSlot label passphrase encryptionSecret signingSecret = .ok container') :
    container.slot label = none ∧ validateSlotLabel label = .ok ()
      ∧ container' = container.withSlot ⟨label, passphrase, encryptionSecret, signingSecret⟩ := by
  obtain ⟨_, hvalid, h⟩ := try_ok h
  obtain ⟨-, h⟩ := else_ok h
  obtain ⟨hnone, h⟩ := else_ok h
  cases h
  exact ⟨by simpa using hnone, hvalid, rfl⟩

theorem removeSlot_ok (h : container.removeSlot label = .ok container') :
    container' = container.withoutSlot label := by
  obtain ⟨_, -, h⟩ := try_ok h
  obtain ⟨-, h⟩ := else_ok h
  exact (Except.ok.inj h).symm

theorem slot_withSlot (hnone : container.slot slot.label = none) :
    (container.withSlot slot).slot label
      = if label = slot.label then some slot else container.slot label := by
  unfold Container.slot withSlot at *
  rw [find?_append]
  by_cases heq : label = slot.label
  · rw [heq, hnone]
    simp
  · rw [if_neg heq]
    cases container.slots.find? fun slot => decide (slot.label = label) with
    | some found => rfl
    | none => simp [Ne.symm heq]

theorem slot_withoutSlot :
    (container.withoutSlot other).slot label = if label = other then none else container.slot label := by
  unfold Container.slot withoutSlot
  exact find?_filter_ne

theorem holds_of_slotMatches [KeyPairs]
    (h : container.slotMatches label encryptionSecret signingSecret = .ok true) :
    container.Holds
      (KeyPairs.encryptionPublic encryptionSecret, KeyPairs.signingPublic signingSecret) := by
  unfold slotMatches at h
  split at h
  next => cases h
  next slot hslot =>
    obtain ⟨hkeys, h⟩ := then_ok h
    exact ⟨slot, (slot_some hslot).1, hkeys⟩

end Lemmas

end Container

end KeyQuorum
