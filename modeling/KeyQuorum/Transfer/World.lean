/-
  **MANY DEVICES, ANY NUMBER OF TRANSFERS.**

  Devices have separate stores and are reached by the calls of
  `transfer.rs`, in any order, with any arguments, each cut short after any
  number of writes.  A run is a list of calls; what every call keeps holds
  along every run.
-/
import KeyQuorum.Foundation.Runs
import KeyQuorum.Transfer.Steps

namespace KeyQuorum.Transfer

open Foundation

/-! ## §1. Calls. -/

/-- Every device with a store of its own. -/
abbrev World (ι : Type) : Type := ι → End

/-- The calls of `transfer.rs`, with the devices they are made on. -/
inductive Action (ι : Type) where
  | enroll (here : ι) (id : Id16) (encryptionSecret signingSecret : Digest) (label passphrase : String)
  | prepare (here : ι) (request : Request)
  | stage (here : ι) (source : DeviceKey) (package : Bytes) (allow : Bool)
  | writeSlots (here : ι) (source : DeviceKey) (package : Bytes) (passphrases : String → Option String)
      (limit : Option Nat)
  | commitRows (here : ι) (source : DeviceKey) (package : Bytes) (allow : Bool)
  | acknowledge (here : ι) (tx : Id16)
  | accept (here : ι) (source : DeviceKey) (package : Bytes) (passphrases : String → Option String)
      (allow : Bool)
  | finalizeSource (source dest : ι) (tx : Id16)
  /-- With the acknowledgement of `dest`. -/
  | finalizeAfterAck (source dest : ι) (tx : Id16) (ackHash : Digest)
  | abort (source dest : ι) (tx : Id16)
  | recover (source dest : ι) (tx : Id16)

def Action.Delivers {ι : Type} (here : ι) (source : DeviceKey) (package : Bytes) : Action ι → Prop
  | .stage at_ source' package' _ | .writeSlots at_ source' package' _ _
  | .commitRows at_ source' package' _ | .accept at_ source' package' _ _ =>
    at_ = here ∧ source' = source ∧ package' = package
  | _ => False

instance {ι : Type} [DecidableEq ι] (here : ι) (source : DeviceKey) (package : Bytes) :
    DecidablePred (Action.Delivers here source package)
  | .stage .. | .writeSlots .. | .commitRows .. | .accept .. => inferInstanceAs (Decidable (_ ∧ _ ∧ _))
  | .enroll .. | .prepare .. | .acknowledge .. | .finalizeSource .. | .finalizeAfterAck .. | .abort ..
  | .recover .. => .isFalse id

/-! ## §2. What stays of a device. -/

/-- What stays of a device whatever is called: its keys, and a ledger that only moves on. -/
structure Onward (P : IdentityRow → Prop) (here there : End) : Prop where
  ledger : Later P here.ledger there.ledger
  key_eq : there.container.key = here.container.key

theorem Onward.refl (P : IdentityRow → Prop) (here : End) : Onward P here here :=
  ⟨.refl, rfl⟩

variable {P : IdentityRow → Prop}

theorem Onward.trans (hab : Onward P a b) (hbc : Onward P b c) : Onward P a c :=
  ⟨hab.ledger.trans hbc.ledger, hbc.key_eq.trans hab.key_eq⟩

variable {here : End}

theorem Onward.deviceId_eq (h : Onward P here there) :
    there.container.deviceId = here.container.deviceId := congrArg DeviceKey.deviceId h.key_eq

theorem Moved.onward (h : Moved P here there) :
    Onward P here there := ⟨h.ledger, h.container.key_eq⟩

theorem Released.onward (h : Released P labels here there) :
    Onward P here there := ⟨h.ledger, h.container.key_eq⟩

/-! ## §3. Runs. -/

section Calls

variable {ι : Type} [DecidableEq ι]

def World.on {α : Type} (world : World ι) (here : ι) (m : Run End Error α) (left : Option Nat) :
    World ι :=
  Function.update world here (m.after left (world here))

def World.onBoth {α : Type} (world : World ι) (source dest : ι) (m : Run Pair Error α)
    (left : Option Nat) : World ι :=
  if source = dest then world
  else
    let pair := m.after left ⟨world source, world dest⟩
    Function.update (Function.update world source pair.source) dest pair.dest

variable [Crypto] [KeyPairs] {R : End → End → Prop} {action : Action ι} {world : World ι}

/-- What a call leaves, when the power lasts for `left` more writes. -/
def Action.exec (left : Option Nat) (world : World ι) : Action ι → World ι
  | .enroll here id encryptionSecret signingSecret label passphrase =>
    world.on here (Transfer.enroll id encryptionSecret signingSecret label passphrase) left
  | .prepare here request => world.on here (Transfer.prepare request) left
  | .stage here source package allow =>
    world.on here (stageDestination source package allow) left
  | .writeSlots here source package passphrases limit =>
    world.on here (writeDestinationSlots source package passphrases limit) left
  | .commitRows here source package allow =>
    world.on here (commitDestinationRows source package allow) left
  | .acknowledge here tx => world.on here (Transfer.acknowledge tx) left
  | .accept here source package passphrases allow =>
    world.on here (acceptPackage source package passphrases allow) left
  | .finalizeSource source dest tx => world.onBoth source dest (Transfer.finalizeSource tx) left
  | .finalizeAfterAck source _ tx ackHash =>
    world.on source (Transfer.finalizeAfterAck tx ackHash) left
  | .abort source dest tx => world.onBoth source dest (abortTransfer tx) left
  | .recover source dest tx => world.onBoth source dest (recoverPair tx) left

/-- A call, with the number of writes it gets to. -/
def World.step (world : World ι) (call : Action ι × Option Nat) : World ι := call.1.exec call.2 world

/-- The devices after a list of calls. -/
def World.run (world : World ι) (calls : List (Action ι × Option Nat)) : World ι :=
  Runs.run World.step world calls

/-- The calls that end a transaction, which are those that delete slots. -/
def Action.ends : Action ι → Bool
  | .finalizeSource .. | .finalizeAfterAck .. | .abort .. | .recover .. => true
  | _ => false

def Action.Admits (P : IdentityRow → Prop) (world : World ι) : Action ι → Prop
  | .enroll .. => ∀ id label keys, P (enrolledRow id label keys)
  | .commitRows here source package _ | .accept here source package _ _ =>
    ∀ bundle, openBundle package source (world here).container.deviceId = .ok bundle →
      ∀ entry ∈ bundle.entries, P entry.row
  | _ => True

omit [DecidableEq ι] in
theorem Action.admits_true (world : World ι) (action : Action ι) :
    action.Admits (fun _ => True) world := by
  cases action <;> simp [Action.Admits]

/-! ## §4. What a call does to every ledger. -/

omit [Crypto] [KeyPairs] in
theorem World.on_cases (hrefl : ∀ here, R here here) (world : World ι) {here : ι}
    {m : Run End Error α} {left : Option Nat} (h : R (world here) (m.after left (world here))) (k : ι) :
    R (world k) (world.on here m left k) := by
  unfold World.on
  by_cases hk : k = here
  · subst hk
    rw [Function.update_self]
    exact h
  · rw [Function.update_of_ne hk]
    exact hrefl _

section Both

variable {world : World ι} {source dest : ι} {m : Run Pair Error α} {left : Option Nat}

section

omit [Crypto] [KeyPairs]

theorem World.onBoth_self : world.onBoth source source m left = world := by
  unfold World.onBoth
  rw [if_pos rfl]

theorem World.onBoth_source (hne : source ≠ dest) :
    world.onBoth source dest m left source = (m.after left ⟨world source, world dest⟩).source := by
  unfold World.onBoth
  rw [if_neg hne, Function.update_of_ne hne, Function.update_self]

theorem World.onBoth_dest (hne : source ≠ dest) :
    world.onBoth source dest m left dest = (m.after left ⟨world source, world dest⟩).dest := by
  unfold World.onBoth
  rw [if_neg hne, Function.update_self]

theorem World.onBoth_other (hsource : k ≠ source) (hdest : k ≠ dest) :
    world.onBoth source dest m left k = world k := by
  unfold World.onBoth
  split
  · rfl
  · rw [Function.update_of_ne hdest, Function.update_of_ne hsource]

theorem World.onBoth_cases (hrefl : ∀ here, R here here)
    (hsource : R (world source) (m.after left ⟨world source, world dest⟩).source)
    (hdest : R (world dest) (m.after left ⟨world source, world dest⟩).dest) (k : ι) :
    R (world k) (world.onBoth source dest m left k) := by
  by_cases hne : source = dest
  · subst hne
    rw [World.onBoth_self]
    exact hrefl _
  by_cases hk : k = source
  · subst hk
    rw [World.onBoth_source hne]
    exact hsource
  by_cases hk' : k = dest
  · subst hk'
    rw [World.onBoth_dest hne]
    exact hdest
  · rw [World.onBoth_other hk hk']
    exact hrefl _

theorem World.onBoth_onward (h : Run.MovesFrom (Settled P scrubbed undone) m ⟨world source, world dest⟩)
    (k : ι) : Onward P (world k) (world.onBoth source dest m left k) :=
  World.onBoth_cases (Onward.refl P) (h.after left).source.onward (h.after left).dest.onward k

end

end Both

theorem Action.exec_moved (hP : action.Admits P world) (hends : action.ends = false) (left : Option Nat)
    (k : ι) : Moved P (world k) (action.exec left world k) := by
  have hrefl : ∀ here : End, Moved P here here := fun here => Std.Refl.refl here
  cases action with
  | enroll => exact World.on_cases hrefl world ((enroll_moved hP).after left) k
  | prepare => exact World.on_cases hrefl world (prepare_noted.after left).moved k
  | stage => exact World.on_cases hrefl world (stageDestination_noted.after left).moved k
  | writeSlots => exact World.on_cases hrefl world (writeDestinationSlots_noted.after left).moved k
  | commitRows => exact World.on_cases hrefl world ((commitDestinationRows_moved hP).after left) k
  | acknowledge => exact World.on_cases hrefl world (Noted.moved (acknowledge_shifts.after left)) k
  | accept => exact World.on_cases hrefl world ((acceptPackage_moved hP).after left) k
  | _ => cases hends

/-- **Every call moves every ledger on.** -/
theorem Action.exec_onward (hP : action.Admits P world) (left : Option Nat) (k : ι) :
    Onward P (world k) (action.exec left world k) := by
  cases action with
  | finalizeSource => exact World.onBoth_onward (@finalizeSource_settled P [] _ _) k
  | finalizeAfterAck =>
    exact World.on_cases (Onward.refl P) world (finalizeAfterAck_released.after left).onward k
  | abort => exact World.onBoth_onward (@abortTransfer_settled P [] _ _) k
  | recover => exact World.onBoth_onward recoverPair_settled k
  | _ => exact (Action.exec_moved hP rfl left k).onward

theorem Delivery.exec [IsPreorder End R] {C : End → Prop} {source : DeviceKey} {package : Bytes}
    (h : Delivery R C source package) {here : ι} (hdelivers : action.Delivers here source package)
    (hC : C (world here)) (left : Option Nat) : R (world here) (action.exec left world here) := by
  have hrefl : ∀ here : End, R here here := fun here => Std.Refl.refl here
  cases action with
  | stage at_ source' package' allow =>
    obtain ⟨rfl, rfl, rfl⟩ := hdelivers
    exact World.on_cases hrefl world ((h.stage allow hC).after left) at_
  | writeSlots at_ source' package' passphrases limit =>
    obtain ⟨rfl, rfl, rfl⟩ := hdelivers
    exact World.on_cases hrefl world ((h.write passphrases limit hC).after left) at_
  | commitRows at_ source' package' allow =>
    obtain ⟨rfl, rfl, rfl⟩ := hdelivers
    exact World.on_cases hrefl world ((h.commit allow hC).after left) at_
  | accept at_ source' package' passphrases allow =>
    obtain ⟨rfl, rfl, rfl⟩ := hdelivers
    exact World.on_cases hrefl world ((h.accept hC passphrases allow).after left) at_
  | _ => exact absurd hdelivers (by simp [Action.Delivers])

/-- **Every run moves every ledger on.** -/
theorem World.run_onward (world : World ι) (calls : List (Action ι × Option Nat)) (k : ι) :
    Onward (fun _ => True) (world k) (world.run calls k) := by
  induction calls generalizing world with
  | nil => exact .refl _ _
  | cons call calls ih =>
    obtain ⟨action, left⟩ := call
    exact (Action.exec_onward (action.admits_true world) left k).trans (ih (action.exec left world))

/-- **What a device has recorded stays**, in every run, wherever its calls are cut short and whatever
packages arrive: a label keeps its identity row, and a transaction moves only as `TxRow.Follows` says. -/
theorem World.run_records (world : World ι) (calls : List (Action ι × Option Nat)) (here : ι) :
    (∀ label row, (world here).ledger.identityByLabel label = some row →
      (world.run calls here).ledger.identityByLabel label = some row)
      ∧ ∀ tx row, (world here).ledger.tx tx = some row →
        ∃ row', (world.run calls here).ledger.tx tx = some row' ∧ row.Follows row' := by
  have honward := (World.run_onward world calls here).ledger
  exact ⟨fun _ _ hrow => honward.grown.byLabel hrow, fun _ _ hrow => honward.follows hrow⟩

end Calls

/-! ## §5. A small world. -/

namespace Sample

def digest (message : Bytes) : Digest :=
  .ofNat 32 (message.foldl (fun acc byte => acc * 257 + byte.toNat + 1) 0)

/-- A scheme in which a signature is the key and the number of the message. -/
@[reducible] def crypto : Crypto where
  sha256 := digest
  signWith secret message := ⟨secret.bytes ++ (digest message).bytes, by simp⟩
  validKey _ := true
  verifyStrict key message signature := signature.bytes = key.bytes ++ (digest message).bytes

@[reducible] def keyPairs : KeyPairs where
  encryptionPublic secret := secret
  signingPublic secret := secret

def device (n : Nat) (slots : List SlotRecord) : Container where
  deviceId := .ofNat 16 n
  verifyKey := .ofNat 32 n
  deviceSecret := .ofNat 32 n
  slots := slots

/-- The slot of the label `M`. -/
def slotM : SlotRecord := ⟨"M", "p", .ofNat 32 7, .ofNat 32 8⟩

def passphrases : String → Option String := fun _ => some "p"

attribute [local instance] crypto keyPairs

/-- Device 1 holds `M`, device 2 holds nothing. -/
def start : World Bool := fun second =>
  if second then ⟨{}, device 2 []⟩ else ⟨{}, device 1 [slotM]⟩

/-- The id of the identity of `M`. -/
def idM : Id16 := .ofNat 16 5

/-- Device 1 has enrolled `M`. -/
def enrolled : World Bool :=
  (Action.enroll false idM slotM.encryptionSecret slotM.signingSecret "M" "p").exec none start

/-- A request of `M` to hand itself over. -/
def request (tx destination : Nat) (operation : TransferOp) : Request where
  rounds := 5
  txId := .ofNat 16 tx
  destination := .ofNat 16 destination
  actor := "M"
  label := "M"
  operation := operation
  descendants := .keyOnly
  passphrases := passphrases
  auth := {}

def packageAt (here : End) (request : Request) : Bytes :=
  match (prepare request ⟨here, none⟩).1 with
  | .ok prepared => prepared.package
  | .error _ => []

/-- `M` moves from device 1 to device 2. -/
def move : List (Action Bool × Option Nat) :=
  [(.prepare false (request 2 2 .move), none),
    (.accept true (device 1 []).key (packageAt (enrolled false) (request 2 2 .move)) passphrases false,
      none),
    (.finalizeSource false true (.ofNat 16 2), none)]

theorem moved_m_recorded : (enrolled.run move false).ledger.identityByLabel "M"
    = some (enrolledRow idM "M" slotM.publicKeys) :=
  (World.run_records enrolled move false).1 "M" _ (by decide +kernel)

end Sample

end KeyQuorum.Transfer
