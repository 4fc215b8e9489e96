/-
  **RELOCATING A SLOT THROUGH THE RELAY** (`device_relay.rs`, the relocate
  letters; `cli/device_cmd.rs`, `relay-relocate`, `relay-accept` and
  `relay-drop`).

  A device seals a copy of a slot to another device, which installs it and
  acknowledges; on the acknowledgement the first device drops its own slot.
  The relay hands out what was posted in any order, any number of times or
  not at all.

  An acknowledgement says that the other device has had the slot, not that
  it still has it.  If it has sent the slot back and dropped its own, the
  old acknowledgement still lets the first device drop the last copy.
-/
import KeyQuorum.Letter
import KeyQuorum.Transfer.Custody

namespace KeyQuorum.Relocate

open List Foundation Transfer Letter

/-! ## §1. Letters. -/

structure RelocateLetter where
  relocateId : Id16
  sourceDeviceId : Id16
  destinationDeviceId : Id16
  returnPublic : Digest
  sourceVerifyKey : Digest
  label : String
  encryptionSecret : Digest
  signingSecret : Digest
  deriving DecidableEq, Repr

structure RelocateAck where
  relocateId : Id16
  label : String
  sourceDeviceId : Id16
  destinationDeviceId : Id16
  deriving DecidableEq, Repr

def relocateDomain : Bytes := utf8Bytes "KQ-DEVICE-RELOCATE-v1"

def relocateAckDomain : Bytes := utf8Bytes "KQ-DEVICE-RELOCATE-ACK-v1"

def RelocateLetter.body (letter : RelocateLetter) : Except Error Bytes := do
  let label ← pushLenPrefixed (utf8Bytes letter.label)
  .ok (letter.relocateId.bytes ++ (letter.sourceDeviceId.bytes ++ (letter.destinationDeviceId.bytes
    ++ (letter.returnPublic.bytes ++ (letter.sourceVerifyKey.bytes ++ (label
    ++ (letter.encryptionSecret.bytes ++ letter.signingSecret.bytes)))))))

def RelocateAck.body (ack : RelocateAck) : Except Error Bytes := do
  let label ← pushLenPrefixed (utf8Bytes ack.label)
  .ok (ack.relocateId.bytes ++ (label ++ (ack.sourceDeviceId.bytes ++ ack.destinationDeviceId.bytes)))

def readSlotLabel : Reader Error String := do
  let bytes ← takeLenPrefixed
  let label ← Reader.lift (utf8 bytes)
  Reader.lift (validateSlotLabel label)
  pure label

def readRelocate : Reader Error RelocateLetter := do
  let relocateId ← takeArray 16
  let sourceDeviceId ← takeArray 16
  let destinationDeviceId ← takeArray 16
  let returnPublic ← takeArray 32
  let sourceVerifyKey ← takeArray 32
  let label ← readSlotLabel
  let encryptionSecret ← takeArray 32
  let signingSecret ← takeArray 32
  pure { relocateId, sourceDeviceId
         destinationDeviceId, returnPublic
         sourceVerifyKey, label
         encryptionSecret, signingSecret }

def readRelocateAck : Reader Error RelocateAck := do
  let relocateId ← takeArray 16
  let label ← readSlotLabel
  let sourceDeviceId ← takeArray 16
  let destinationDeviceId ← takeArray 16
  pure { relocateId, label, sourceDeviceId
         destinationDeviceId }

section Letters

variable [Crypto] [KeyPairs] [SealedBoxes]

/-- `seal_relocate_in`; `relocateId` and `seed` are drawn at random. -/
def sealRelocate (relocateId : Id16) (seed : Nat) (recipient : Digest) (source : Container)
    (label : String) (destination : Id16) (passphrase : String) : Except Error Bytes :=
  if source.deviceId = destination then .error .invalidDevice
  else do
    let slot ← source.openSlot label passphrase
    let body ← RelocateLetter.body
      { relocateId, sourceDeviceId := source.deviceId, destinationDeviceId := destination
        returnPublic := slot.publicKeys.1, sourceVerifyKey := source.verifyKey, label
        encryptionSecret := slot.encryptionSecret, signingSecret := slot.signingSecret }
    let signature := sign source.deviceSecret (relocateDomain ++ body)
    sealTo kindDeviceRelocate recipient seed (body ++ signature.bytes)

def openRelocate (recipientSecret : Digest) (bytes : Bytes) : Except Error RelocateLetter := do
  let (kind, _, payload) ← openWith bytes recipientSecret
  if kind ≠ kindDeviceRelocate then .error .invalidBridgePackage
  else do
    let (letter, rest) ← readRelocate payload
    let signature ← lastSignature rest
    verifySignature letter.sourceVerifyKey (relocateDomain ++ signedPart payload) signature
    if KeyPairs.encryptionPublic letter.encryptionSecret ≠ letter.returnPublic then
      .error .integrityCheckFailed
    else .ok letter

/-- `seal_relocate_ack_in`. -/
def sealRelocateAck (seed : Nat) (letter : RelocateLetter) (destination : Container) :
    Except Error Bytes :=
  if destination.deviceId ≠ letter.destinationDeviceId then .error .invalidDevice
  else do
    let body ← RelocateAck.body
      { relocateId := letter.relocateId, label := letter.label
        sourceDeviceId := letter.sourceDeviceId, destinationDeviceId := letter.destinationDeviceId }
    let signature := sign destination.deviceSecret (relocateAckDomain ++ body)
    sealTo kindDeviceRelocateAck letter.returnPublic seed (body ++ signature.bytes)

def openRelocateAck (returnSecret : Digest) (bytes : Bytes) (destinationVerifyKey : Digest) :
    Except Error RelocateAck := do
  let (kind, _, payload) ← openWith bytes returnSecret
  if kind ≠ kindDeviceRelocateAck then .error .invalidBridgePackage
  else do
    let (ack, rest) ← readRelocateAck payload
    let signature ← lastSignature rest
    verifySignature destinationVerifyKey (relocateAckDomain ++ signedPart payload) signature
    .ok ack

/-! ## §2. Commands. -/

structure Site where
  container : Container
  mailbox : List Bytes
  deriving DecidableEq

/-- `push_device_package`. -/
def post (package : Bytes) : Run Site Error Unit :=
  Run.commit (Op.modify fun site => { site with mailbox := site.mailbox ++ [package] })

def changeContainer (change : Container → Except Error Container) : Run Site Error Unit :=
  Run.commit fun site =>
    match change site.container with
    | .ok container => (.ok (), { site with container })
    | .error e => (.error e, site)

/-- `device relay-relocate`. -/
def relayRelocate (recipient : Digest) (label : String) (destination : Id16) (passphrase : String)
    (relocateId : Id16) (seed : Nat) : Run Site Error Unit := do
  let here ← Run.look
  let package ← Run.check (sealRelocate relocateId seed recipient here.container label destination
    passphrase)
  post package

/-- What `relay-accept` does with one package; `directory` are the relay's descriptors, `passphrases` what
is typed in for a new slot, `seed` the randomness of the acknowledgement. -/
def acceptLetter (directory : Id16 → Except Error DeviceKey) (passphrases : String → Except Error String)
    (openerSecret : Digest) (package : Bytes) (seed : Nat) : Run Site Error Unit :=
  match openRelocate openerSecret package with
  | .error _ => pure ()
  | .ok letter => do
      let here ← Run.look
      if letter.destinationDeviceId ≠ here.container.deviceId then pure ()
      else do
        let published ← Run.check (directory letter.sourceDeviceId)
        if published.verifyKey ≠ letter.sourceVerifyKey then pure ()
        else
          match here.container.slotMatches letter.label letter.encryptionSecret letter.signingSecret with
          -- another key under the label: the letter is skipped
          | .error _ => pure ()
          | .ok installed => do
              Run.when (!installed) (do
                let passphrase ← Run.check (passphrases letter.label)
                changeContainer fun container => container.installSlot letter.label passphrase
                  letter.encryptionSecret letter.signingSecret)
              let here ← Run.look
              let ack ← Run.check (sealRelocateAck seed letter here.container)
              post ack

/-- The loop of `relay-accept` over the packages it pulled, each with a seed. -/
def acceptLetters (directory : Id16 → Except Error DeviceKey)
    (passphrases : String → Except Error String) (openerSecret : Digest) :
    List (Bytes × Nat) → Run Site Error Unit
  | [] => pure ()
  | (package, seed) :: packages => do
      acceptLetter directory passphrases openerSecret package seed
      acceptLetters directory passphrases openerSecret packages

/-- `device relay-accept`. -/
def relayAccept (directory : Id16 → Except Error DeviceKey) (passphrases : String → Except Error String)
    (slot passphrase : String) (packages : List (Bytes × Nat)) : Run Site Error Unit := do
  let here ← Run.look
  let opener ← Run.check (here.container.openSlot slot passphrase)
  acceptLetters directory passphrases opener.encryptionSecret packages

/-- Whether a package acknowledges a relocation: it opens with the slot's key, the destination has signed
it, and it names the relocation, the label and both devices. -/
def acknowledges (opener : SlotRecord) (verifyKey : Digest) (expected : RelocateAck) (package : Bytes) :
    Bool :=
  match openRelocateAck opener.encryptionSecret package verifyKey with
  | .error _ => false
  | .ok ack => ack = expected

/-- `device relay-drop`. -/
def relayDrop (directory : Id16 → Except Error DeviceKey) (label : String) (destination relocateId : Id16)
    (passphrase : String) (packages : List Bytes) : Run Site Error Unit := do
  let published ← Run.check (directory destination)
  Run.require (published.deviceId = destination) .invalidDevice
  let here ← Run.look
  let opener ← Run.check (here.container.openSlot label passphrase)
  Run.when (packages.any (acknowledges opener published.verifyKey
      ⟨relocateId, label, here.container.deviceId, destination⟩))
    (changeContainer fun container => container.removeSlot label)

end Letters

/-! ## §3. What a command does to its device. -/

def SiteGains (here there : Site) : Prop := Gains here.container there.container

instance : IsPreorder Site SiteGains where
  refl here := Gains.refl here.container
  trans _ _ _ := Gains.trans

section Steps

variable {here : Site} {label : String} {destination relocateId : Id16} {packages : List (Bytes × Nat)}

theorem post_gains : Run.MovesFrom SiteGains (post package) here := by
  refine .commit fun _ there hrun => ?_
  obtain rfl := Op.modify_ok hrun
  exact .refl here.container

theorem changeContainer_ends (hQ : Q here) (h : ∀ container, change here.container = .ok container →
      A () { here with container }) : Run.Ends (changeContainer change) here A Q := by
  refine .commit hQ fun u there hrun => ?_
  split at hrun
  next container hcontainer =>
    cases hrun
    exact h container hcontainer
  next => cases hrun

variable [Crypto] [KeyPairs] [SealedBoxes] {passphrase : String}
  {directory : Id16 → Except Error DeviceKey}

theorem relayRelocate_gains :
    Run.MovesFrom SiteGains (relayRelocate recipient label destination passphrase relocateId seed) here :=
  .look_bind (.check_bind fun _ _ => post_gains)

theorem acceptLetter_gains :
    Run.MovesFrom SiteGains (acceptLetter directory passphrases openerSecret package seed) here := by
  unfold acceptLetter
  split
  · exact .pure ()
  · refine .look_bind ?_
    split
    · exact .pure ()
    · refine .check_bind fun published _ => ?_
      split
      · exact .pure ()
      · split
        · exact .pure ()
        · refine .bind (.when fun _ => ?_) fun _ there _ => ?_
          · refine .check_bind fun passphrase _ => ?_
            refine changeContainer_ends (.refl _) fun container hinstall => ?_
            obtain ⟨-, -, rfl⟩ := Container.installSlot_ok hinstall
            exact .withSlot _ _
          · exact .look_bind (.check_bind fun _ _ => post_gains)

theorem acceptLetters_gains :
    Run.MovesFrom SiteGains (acceptLetters directory passphrases openerSecret packages) here := by
  induction packages generalizing here with
  | nil => exact .pure ()
  | cons first packages ih => exact .bind acceptLetter_gains fun _ _ _ => ih

theorem relayAccept_gains :
    Run.MovesFrom SiteGains (relayAccept directory passphrases slot passphrase packages) here :=
  .look_bind (.check_bind fun _ _ => acceptLetters_gains)

omit [KeyPairs] in
theorem relayDrop_sheds {packages : List Bytes} (hR : R here)
    (hdrop : ∀ published opener, directory destination = .ok published →
      here.container.slot label = some opener →
      packages.any (acknowledges opener published.verifyKey
        ⟨relocateId, label, here.container.deviceId, destination⟩) →
      ∀ container, Sheds [label] here.container container → R { here with container }) :
    Run.Ends (relayDrop directory label destination relocateId passphrase packages) here
      (fun _ => R) R := by
  refine .check_bind hR fun published hpublished => .require_bind hR fun _ => ?_
  refine .look_bind (.check_bind hR fun opener hopener => ?_)
  refine .when (fun hacknowledged => ?_) fun _ => hR
  refine changeContainer_ends hR fun container hremove => ?_
  obtain rfl := Container.removeSlot_ok hremove
  exact hdrop published opener hpublished (Container.openSlot_ok hopener).1 hacknowledged _
    (.withoutSlot (mem_singleton_self label) _)

end Steps

/-! ## §4. Runs. -/

structure Relay (ι : Type) where
  device : ι → Container
  mailbox : List Bytes

/-- A command, with all that it is given: the packages the relay hands out, its descriptors, what is typed
in and what is drawn at random. -/
inductive Command (ι : Type) where
  | relocate (here : ι) (recipient : Digest) (label : String) (destination : Id16) (passphrase : String)
      (relocateId : Id16) (seed : Nat)
  | accept (here : ι) (directory : Id16 → Except Error DeviceKey)
      (passphrases : String → Except Error String) (slot passphrase : String)
      (packages : List (Bytes × Nat))
  | drop (here : ι) (directory : Id16 → Except Error DeviceKey) (label : String)
      (destination relocateId : Id16) (passphrase : String) (packages : List Bytes)

section Runs

variable [Crypto] [KeyPairs] [SealedBoxes] {ι : Type} [DecidableEq ι]

def Relay.on {α : Type} (relay : Relay ι) (here : ι) (m : Run Site Error α) (left : Option Nat) :
    Relay ι :=
  let site := m.after left ⟨relay.device here, relay.mailbox⟩
  ⟨Function.update relay.device here site.container, site.mailbox⟩

/-- What a command leaves, when it gets to `left` more writes. -/
def Command.exec (left : Option Nat) (relay : Relay ι) : Command ι → Relay ι
  | .relocate here recipient label destination passphrase relocateId seed =>
    relay.on here (relayRelocate recipient label destination passphrase relocateId seed) left
  | .accept here directory passphrases slot passphrase packages =>
    relay.on here (relayAccept directory passphrases slot passphrase packages) left
  | .drop here directory label destination relocateId passphrase packages =>
    relay.on here (relayDrop directory label destination relocateId passphrase packages) left

/-- A command, with the number of writes it gets to. -/
def Relay.step (relay : Relay ι) (call : Command ι × Option Nat) : Relay ι := call.1.exec call.2 relay

def Relay.run (relay : Relay ι) (commands : List (Command ι × Option Nat)) : Relay ι :=
  Runs.run Relay.step relay commands

def Relay.Holds (relay : Relay ι) (keys : Digest × Digest) : Prop := ∃ k, (relay.device k).Holds keys

def Command.Delivered (relay : Relay ι) : Command ι → Prop
  | .relocate .. => True
  | .accept _ _ _ _ _ packages => ∀ package ∈ packages, package.1 ∈ relay.mailbox
  | .drop _ _ _ _ _ _ packages => ∀ package ∈ packages, package ∈ relay.mailbox

/-- A drop that acts on an acknowledgement only while the device that gave it has the slot. -/
def Command.Careful (relay : Relay ι) : Command ι → Prop
  | .drop here directory label destination relocateId _ packages =>
    ∀ published opener, directory destination = .ok published →
      (relay.device here).slot label = some opener →
      packages.any (acknowledges opener published.verifyKey
        ⟨relocateId, label, (relay.device here).deviceId, destination⟩) = true →
      ∃ k, k ≠ here ∧ (relay.device k).deviceId = destination
        ∧ Covered [label] (relay.device here) (relay.device k)
  | _ => True

/-- Every command of a run meets a condition in the state it is given in. -/
def Relay.Along (P : Relay ι → Command ι → Prop) (relay : Relay ι)
    (commands : List (Command ι × Option Nat)) : Prop :=
  Runs.Along Relay.step (fun relay call => P relay call.1) relay commands

variable {relay : Relay ι} {keys : Digest × Digest} {left : Option Nat} {here : ι}
  {m : Run Site Error α}

omit [Crypto] [KeyPairs] [SealedBoxes] in
theorem Relay.on_self :
    (relay.on here m left).device here = (m.after left ⟨relay.device here, relay.mailbox⟩).container :=
  Function.update_self _ _ _

omit [Crypto] [KeyPairs] [SealedBoxes] in
theorem Relay.on_other (hne : k ≠ here) : (relay.on here m left).device k = relay.device k :=
  Function.update_of_ne hne _ _

omit [Crypto] [SealedBoxes] in
theorem Relay.on_holds
    (hgains : Run.MovesFrom SiteGains m ⟨relay.device here, relay.mailbox⟩) (h : relay.Holds keys) :
    (relay.on here m left).Holds keys := by
  obtain ⟨k, hk⟩ := h
  refine ⟨k, ?_⟩
  by_cases hhere : k = here
  · subst hhere
    rw [Relay.on_self]
    exact Gains.holds (hgains.after left) hk
  · rwa [Relay.on_other hhere]

/-- **A careful command loses no slot**, wherever it stops. -/
theorem Command.exec_holds {command : Command ι} (hcareful : command.Careful relay) (left : Option Nat)
    (h : relay.Holds keys) : (command.exec left relay).Holds keys := by
  cases command with
  | relocate =>
    exact Relay.on_holds relayRelocate_gains h
  | accept =>
    exact Relay.on_holds relayAccept_gains h
  | drop here directory label destination relocateId passphrase packages =>
    -- the slot that goes is in another container, which the command does not touch
    have hends : Run.Ends (relayDrop directory label destination relocateId passphrase packages)
        ⟨relay.device here, relay.mailbox⟩
        (fun _ site => (relay.device here).Holds keys → site.container.Holds keys
          ∨ ∃ k, k ≠ here ∧ (relay.device k).Holds keys)
        (fun site => (relay.device here).Holds keys → site.container.Holds keys
          ∨ ∃ k, k ≠ here ∧ (relay.device k).Holds keys) := by
      refine relayDrop_sheds (fun hheld => .inl hheld) ?_
      intro published opener hpublished hopener hacknowledged container hsheds hheld
      obtain ⟨k, hne, -, hcovered⟩ := hcareful published opener hpublished hopener hacknowledged
      rcases hsheds.holds hcovered hheld with hheld | hheld
      · exact .inl hheld
      · exact .inr ⟨k, hne, hheld⟩
    have hafter := hends.after left
    obtain ⟨k, hk⟩ := h
    have hother : ∀ k, k ≠ here → (relay.device k).Holds keys → (Command.exec left relay
          (.drop here directory label destination relocateId passphrase packages)).Holds keys := by
      intro k hne hheld
      refine ⟨k, ?_⟩
      unfold Command.exec
      rwa [Relay.on_other hne]
    by_cases hhere : k = here
    · subst hhere
      rcases hafter hk with hheld | ⟨other, hne, hheld⟩
      · refine ⟨k, ?_⟩
        unfold Command.exec
        rwa [Relay.on_self]
      · exact hother other hne hheld
    · exact hother k hhere hk

/-- **No careful run loses a slot**: what some container holds at the start, some container holds after
every command, whatever the relay hands out. -/
theorem Relay.run_holds_slots (relay : Relay ι) (commands : List (Command ι × Option Nat))
    (hcareful : relay.Along (fun relay command => command.Careful relay) commands)
    (keys : Digest × Digest) (h : relay.Holds keys) (n : Nat) :
    (relay.run (commands.take n)).Holds keys :=
  Runs.Along.always hcareful (fun _ call h hcareful => Command.exec_holds hcareful call.2 h) h n

end Runs

/-! ## §5. A run that loses a slot. -/

namespace Sample

open Transfer.Sample (slotM)

attribute [local instance] Transfer.Sample.crypto Transfer.Sample.keyPairs SealedBoxes.toy

def receiver (n : Nat) : SlotRecord := ⟨"recv", "p", .ofNat 32 n, .ofNat 32 n⟩

/-- Device 1 has `M`, device 2 has not. -/
def start : Relay Bool where
  device second := if second then Transfer.Sample.device 2 [receiver 22]
    else Transfer.Sample.device 1 [receiver 21, slotM]
  mailbox := []

def directory (id : Id16) : Except Error DeviceKey :=
  if id = .ofNat 16 1 then .ok (Transfer.Sample.device 1 []).key
  else if id = .ofNat 16 2 then .ok (Transfer.Sample.device 2 []).key
  else .error .invalidDevice

def passphrases : String → Except Error String := fun _ => .ok "p"

/-- Device 1 relocates `M` to device 2. -/
def relocateThere : Command Bool :=
  .relocate false (.ofNat 32 22) "M" (.ofNat 16 2) "p" (.ofNat 16 91) 0

/-- Device 2 relocates `M` to device 1. -/
def relocateBack : Command Bool :=
  .relocate true (.ofNat 32 21) "M" (.ofNat 16 1) "p" (.ofNat 16 92) 0

def acceptAll (second : Bool) (relay : Relay Bool) : Command Bool :=
  .accept second directory passphrases "recv" "p" (relay.mailbox.map fun package => (package, 0))

/-- A device drops `M` on an acknowledgement that is in the mailbox. -/
def dropM (second : Bool) (destination relocateId : Nat) (relay : Relay Bool) : Command Bool :=
  .drop second directory "M" (.ofNat 16 destination) (.ofNat 16 relocateId) "p"
    relay.mailbox

/-- Device 2 has accepted `M`. -/
def accepted : Relay Bool := (acceptAll true (relocateThere.exec none start)).exec none
  (relocateThere.exec none start)

/-- Device 1 has accepted `M` back, which it never dropped. -/
def returned : Relay Bool := (acceptAll false (relocateBack.exec none accepted)).exec none
  (relocateBack.exec none accepted)

/-- Device 2 has dropped `M`. -/
def droppedOnce : Relay Bool := (dropM true 1 92 returned).exec none returned

/-- `M` goes to device 2, which acknowledges, and device 1 drops its slot. -/
def relocation : List (Command Bool × Option Nat) :=
  [(relocateThere, none), (acceptAll true (relocateThere.exec none start), none),
    (dropM false 2 91 accepted, none)]

theorem relocation_keeps_m :
    (start.run (relocation.take 3)).Holds slotM.publicKeys := by
  obtain ⟨hdevice, hcovered, hstart⟩ : (accepted.device true).deviceId = .ofNat 16 2
      ∧ Covered ["M"] (accepted.device false) (accepted.device true)
      ∧ slotM ∈ (start.device false).slots := by
    decide +kernel
  refine Relay.run_holds_slots start relocation ⟨trivial, trivial, ?_, trivial⟩ _
    ⟨false, slotM, hstart, rfl⟩ 3
  exact fun published opener _ _ _ => ⟨true, by decide, hdevice, hcovered⟩

/-- `M` goes to device 2 and back before device 1 has dropped it, and then both devices drop it, each on
the other's acknowledgement. -/
def thereAndBack : List (Command Bool × Option Nat) :=
  [(relocateThere, none), (acceptAll true (relocateThere.exec none start), none),
    (relocateBack, none), (acceptAll false (relocateBack.exec none accepted), none),
    (dropM true 1 92 returned, none), (dropM false 2 91 droppedOnce, none)]

/-- **An old acknowledgement deletes the last copy.** -/
theorem old_acknowledgement_loses_m :
    start.Along (fun relay command => command.Delivered relay) thereAndBack
      ∧ start.Holds slotM.publicKeys
      ∧ ¬ (start.run thereAndBack).Holds slotM.publicKeys := by
  have hslots : slotM ∈ (start.device false).slots
      ∧ ((start.run thereAndBack).device false).slots = [receiver 21]
      ∧ ((start.run thereAndBack).device true).slots = [receiver 22] := by
    decide +kernel
  refine ⟨?_, ⟨false, slotM, hslots.1, rfl⟩, ?_⟩
  · -- every package was taken from the mailbox as it was
    refine ⟨trivial, ?_, trivial, ?_, fun _ h => h, fun _ h => h, trivial⟩
    · intro package hpackage
      obtain ⟨_, hposted, rfl⟩ := mem_map.mp hpackage
      exact hposted
    · intro package hpackage
      obtain ⟨_, hposted, rfl⟩ := mem_map.mp hpackage
      exact hposted
  · rintro ⟨k, slot, hslot, hkeys⟩
    have hother : ∀ n, n = 21 ∨ n = 22 → (receiver n).publicKeys ≠ slotM.publicKeys := by
      rintro n (rfl | rfl)
      · decide
      · decide
    cases k with
    | false =>
      rw [hslots.2.1, mem_singleton] at hslot
      exact hother 21 (.inl rfl) (hslot ▸ hkeys)
    | true =>
      rw [hslots.2.2, mem_singleton] at hslot
      exact hother 22 (.inr rfl) (hslot ▸ hkeys)

end Sample

end KeyQuorum.Relocate
