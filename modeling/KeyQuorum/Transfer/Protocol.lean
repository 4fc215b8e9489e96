/-
  **THE STEPS OF A TRANSFER** (`transfer.rs`, from `enroll` to
  `recover_pair`).

  Each device has a ledger and a container.  A step works on one device or
  on the two ends of a transaction; the power can fail before any of its
  writes: a statement, a committed transaction, a slot installed or
  removed.  Random ids and keys are parameters.
-/
import KeyQuorum.Transfer.Receive
import KeyQuorum.Foundation.Power

namespace KeyQuorum.Transfer

open Foundation Ledger

/-! ## §1. One device. -/

/-- One device: its database and its container file. -/
structure End where
  ledger : Ledger
  container : Container
  deriving DecidableEq

def onLedger {α : Type} (m : Op Ledger Error α) : Run End Error α :=
  Run.commit (Op.zoom End.ledger (fun here ledger => { here with ledger }) m)

def onContainer (change : Container → Except Error Container) : Run End Error Unit :=
  Run.commit fun here =>
    match change here.container with
    | .ok container => (.ok (), { here with container })
    | .error e => (.error e, here)

section Steps

variable [Crypto] [KeyPairs]

/-- The row of an enrolled slot: its parent is the label up to the last dot. -/
def enrolledRow (id : Id16) (label : String) (keys : Digest × Digest) : IdentityRow where
  id := id
  label := label
  parentLabel := parentNodeLabel label
  encPublic := keys.1
  signPublic := keys.2
  encFingerprint := Store.fingerprint keys.1.bytes
  signFingerprint := Store.fingerprint keys.2.bytes

/-- `enroll_in`; `id`, `encryptionSecret` and `signingSecret` are drawn at random. -/
def enroll (id : Id16) (encryptionSecret signingSecret : Digest) (label passphrase : String) :
    Run End Error Id16 := do
  Run.check (validateSlotLabel label)
  let here ← Run.look
  Run.when (here.container.slot label).isNone (onContainer fun container =>
    container.installSlot label passphrase encryptionSecret signingSecret)
  let here ← Run.look
  let slot ← Run.check (here.container.openSlot label passphrase)
  match here.ledger.identityByLabel label with
  | some existing => do
      Run.require ((existing.encPublic, existing.signPublic) = slot.publicKeys) .identityConflict
      pure existing.id
  | none => do
      onLedger (ensureHardware label .encryption slot.publicKeys.1)
      onLedger (ensureHardware label .signing slot.publicKeys.2)
      onLedger (insertIdentity (enrolledRow id label slot.publicKeys) ⟨id, .active, .first⟩)
      pure id

/-- What `prepare` is asked for.  `rounds` is how long its walk down the tree may take, `txId` is drawn at
random, and `destination` can be any device (the callers pass the one they have at hand). -/
structure Request where
  rounds : Nat
  txId : Id16
  destination : Id16
  actor : String
  label : String
  operation : TransferOp
  descendants : DescendantMode
  passphrases : String → Option String
  auth : TransferAuth

structure PreparedTransfer where
  bundle : Bundle
  secretLabels : List String
  hintLabels : List String
  package : Bytes
  deriving DecidableEq

def denied (e : Error) : Error := if e = .ghostDenied then .ghostDenied else .transferDenied

def End.secretEntry (here : End) (passphrases : String → Option String) (label : String) :
    Except Error (Option BundleEntry) := do
  let row ← okOr (here.ledger.identityByLabel label) .transferDenied
  let generation ← here.ledger.generationOf row.id
  let passphrase ← okOr (passphrases label) .invalidPassword
  let slot ← here.container.openSlot label passphrase
  if slot.publicKeys ≠ (row.encPublic, row.signPublic) then .error .identityConflict
  else .ok (some { identityId := row.id, generation, label
                   parentLabel := row.parentLabel, encPublic := row.encPublic
                   signPublic := row.signPublic, encFingerprint := row.encFingerprint
                   signFingerprint := row.signFingerprint
                   secrets := some (slot.encryptionSecret, slot.signingSecret) })

/-- An entry that only tells of an identity; a label without one is passed over. -/
def End.hintEntry (here : End) (label : String) : Except Error (Option BundleEntry) :=
  match here.ledger.identityByLabel label with
  | none => .ok none
  | some row => do
      let generation ← here.ledger.generationOf row.id
      .ok (some { identityId := row.id, generation, label
                  parentLabel := row.parentLabel, encPublic := row.encPublic
                  signPublic := row.signPublic, encFingerprint := row.encFingerprint
                  signFingerprint := row.signFingerprint, secrets := none })

def gather (entry : String → Except Error (Option BundleEntry)) :
    List String → Except Error (List BundleEntry)
  | [] => .ok []
  | label :: labels => do
      let first ← entry label
      let more ← gather entry labels
      .ok (first.toList ++ more)

/-- The bundle of a request whose export was selected, and its package. -/
def End.pack (here : End) (request : Request) (secrets hints : List String) :
    Except Error PreparedTransfer := do
  let secretEntries ← gather (here.secretEntry request.passphrases) secrets
  let hintEntries ← gather here.hintEntry hints
  let bundle : Bundle :=
    { id := request.txId, operation := request.operation, descendants := request.descendants
      sourceDeviceId := here.container.deviceId, destinationDeviceId := request.destination
      actor := request.actor, rootLabel := request.label, entries := secretEntries ++ hintEntries }
  let package ← encodeBundle here.container bundle
  .ok ⟨bundle, secrets, hints, package⟩

def PreparedTransfer.row (prepared : PreparedTransfer) : TxRow where
  id := prepared.bundle.id
  operation := prepared.bundle.operation
  role := .source
  state := .prepared
  peerDeviceId := prepared.bundle.destinationDeviceId
  rootLabel := prepared.bundle.rootLabel
  descendantMode := prepared.bundle.descendants
  packageHash := sha256 prepared.package
  detail := formatDetail "prepared" prepared.secretLabels prepared.hintLabels []

/-- `prepare_in`. -/
def prepare (request : Request) : Run End Error PreparedTransfer := do
  Run.check ((validateSlotLabel request.actor).mapError fun _ => .transferDenied)
  Run.check ((validateSlotLabel request.label).mapError fun _ => .transferDenied)
  let here ← Run.look
  Run.check ((here.ledger.authorize request.actor request.label request.operation
    request.descendants request.auth).mapError denied)
  match here.ledger.selectExport request.rounds request.label request.descendants with
  | none => Run.hang
  | some selected => do
      let (secrets, hints) ← Run.check (selected.mapError denied)
      let prepared ← Run.check (here.pack request secrets hints)
      onLedger (insertTx prepared.row)
      pure prepared

def stagedRow (bundle : Bundle) (package : Bytes) : TxRow where
  id := bundle.id
  operation := bundle.operation
  role := .destination
  state := .transferred
  peerDeviceId := bundle.sourceDeviceId
  rootLabel := bundle.rootLabel
  descendantMode := bundle.descendants
  packageHash := sha256 package
  detail := formatDetail "transferred" bundle.included bundle.excluded []

def stageDestination (source : DeviceKey) (package : Bytes) (allowAncestorImport : Bool) :
    Run End Error Unit := do
  let here ← Run.look
  let bundle ← Run.check (openBundle package source here.container.deviceId)
  Run.require (here.ledger.txRole bundle.id ≠ some .destination) .transferReplay
  Run.check (here.ledger.receiverAccepts bundle allowAncestorImport)
  -- a row of role `source` is this transfer's own preparation, in a store both ends share
  if (here.ledger.txRole bundle.id).isSome then
    onLedger (updateTx (stagedRow bundle package))
  else onLedger (insertTx (stagedRow bundle package))

def noteInstalled (tx : Id16) (installed : List String) : Run End Error Unit := do
  let here ← Run.look
  let row ← Run.check (here.ledger.requireTx tx)
  onLedger (setDetail tx (replaceDetailList row.detail "installed" installed))

/-- The loop of `write_destination_slots_in`: the secret entries left, the labels noted as installed
and the number of slots written. -/
def writeSlots (tx : Id16) (passphrases : String → Option String) (limit : Option Nat) :
    List BundleEntry → List String → Nat → Run End Error Unit
  | [], _, _ => pure ()
  | entry :: entries, installed, written =>
    if limit.any fun limit => limit ≤ written then pure ()
    else do
      let here ← Run.look
      match here.container.slot entry.label with
      | some _ => do
          let passphrase ← Run.check (okOr (passphrases entry.label) .invalidPassword)
          let opened ← Run.check (here.container.openSlot entry.label passphrase)
          -- only the encryption key is compared
          Run.require (opened.publicKeys.1 = entry.encPublic) .identityConflict
          writeSlots tx passphrases limit entries installed written
      | none => do
          let passphrase ← Run.check (okOr (passphrases entry.label) .invalidPassword)
          let noted := if installed.contains entry.label then installed else installed ++ [entry.label]
          Run.when (!installed.contains entry.label) (noteInstalled tx noted)
          let secrets ← Run.check (okOr entry.secrets .integrityCheckFailed)
          onContainer fun container =>
            container.installSlot entry.label passphrase secrets.1 secrets.2
          writeSlots tx passphrases limit entries noted (written + 1)

/-- `write_destination_slots_in`. -/
def writeDestinationSlots (source : DeviceKey) (package : Bytes)
    (passphrases : String → Option String) (limit : Option Nat) : Run End Error Unit := do
  let here ← Run.look
  let bundle ← Run.check (openBundle package source here.container.deviceId)
  let row ← Run.check (here.ledger.requireTx bundle.id)
  Run.require (row.state = .transferred || row.state = .writing) .transferReplay
  onLedger (setState bundle.id .writing)
  writeSlots bundle.id passphrases limit bundle.secretEntries row.installed 0

def commitDestinationRows (source : DeviceKey) (package : Bytes) (allowAncestorImport : Bool) :
    Run End Error Unit := do
  let here ← Run.look
  let bundle ← Run.check (openBundle package source here.container.deviceId)
  let row ← Run.check (here.ledger.requireTx bundle.id)
  Run.require (row.state = .writing || row.state = .destinationCommitted) .transferIncomplete
  if row.state = .destinationCommitted then pure ()
  else do
    Run.require (bundle.secretEntries.all fun entry => (here.container.slot entry.label).isSome)
      .transferIncomplete
    onLedger (commitBundle bundle allowAncestorImport here.ledger.activeLabels)

def acknowledge (tx : Id16) : Run End Error Unit := do
  let here ← Run.look
  let row ← Run.check (here.ledger.requireTx tx)
  if row.state = .acknowledged || row.state = .completed then pure ()
  else do
    Run.require (row.state = .destinationCommitted) .transferIncomplete
    onLedger (setState tx .acknowledged)

section

variable (source : DeviceKey) (package : Bytes) (passphrases : String → Option String)
    (allowAncestorImport : Bool)

def installAndCommit (tx : Id16) : Run End Error Unit := do
  writeDestinationSlots source package passphrases none
  commitDestinationRows source package allowAncestorImport
  acknowledge tx

/-- `accept_package_in`, with `resume_accept` for a transaction that is already here. -/
def acceptPackage : Run End Error Id16 := do
  let here ← Run.look
  let header ← Run.check (authenticatedPackage package)
  Run.require (header.sourceDeviceId = source.deviceId && header.verifyKey = source.verifyKey
    && header.destinationDeviceId = here.container.deviceId) .signatureVerificationFailed
  match here.ledger.txState header.id with
  | some state =>
    if state.settled then do
      Run.when (state = .destinationCommitted) (acknowledge header.id)
      pure header.id
    else do
      Run.require (state = .transferred || state = .writing) .transferReplay
      installAndCommit source package passphrases allowAncestorImport header.id
      pure header.id
  | none => do
      stageDestination source package allowAncestorImport
      installAndCommit source package passphrases allowAncestorImport header.id
      pure header.id

end

/-! ## §2. Letting go at the source. -/

section

omit [Crypto] [KeyPairs]

def removeSlots : List String → Run End Error Unit
  | [] => pure ()
  | label :: labels => do
      let here ← Run.look
      Run.when (here.container.slot label).isSome (onContainer fun container =>
        container.removeSlot label)
      removeSlots labels

def scrubMovedSlots (tx : Id16) : Run End Error Unit := do
  let here ← Run.look
  let row ← Run.check (here.ledger.requireTx tx)
  if row.operation = .move then removeSlots row.included else pure ()

/-- What finalizing does to one label: a MOVE leaves a ghost of the next generation.  Returns the
identity and the generation its destination has to reach. -/
def retireLabel (operation : TransferOp) (label : String) : Op Ledger Error (Id16 × Generation) := do
  let ledger ← Op.read
  let row ← Op.lift (okOr (ledger.identityByLabel label) .transferDenied)
  let generation ← Op.lift (ledger.generationOf row.id)
  match operation with
  | .move => do
      setPossession row.id .ghost generation.next
      pure (row.id, generation.next)
  | .copy => pure (row.id, generation)

def retireAll (operation : TransferOp) : List String → Op Ledger Error Unit
  | [] => pure ()
  | label :: labels => do
      let _ ← retireLabel operation label
      retireAll operation labels

/-- `finalize_after_ack_in`. -/
def finalizeAfterAck (tx : Id16) (ackHash : Digest) : Run End Error Unit := do
  let here ← Run.look
  let row ← Run.check (here.ledger.requireTx tx)
  if row.state = .completed then pure ()
  else if row.state = .sourceFinalized then do
    scrubMovedSlots tx
    onLedger (setState tx .completed)
  else do
    Run.require (row.state = .prepared) .transferIncomplete
    if row.packageHash ≠ ackHash then do
      onLedger (setState tx .needsAdmin)
      Run.check (.error .transferIncomplete)
    else do
      scrubMovedSlots tx
      onLedger (do
        retireAll row.operation row.included
        setState tx .sourceFinalized
        setState tx .completed)

end

end Steps

/-! ## §3. Both ends at once. -/

/-- The two devices of a transfer. -/
structure Pair where
  source : End
  dest : End
  deriving DecidableEq

def atSource {α : Type} (m : Run End Error α) : Run Pair Error α :=
  Run.on Pair.source (fun pair here => { pair with source := here }) m

def atDest {α : Type} (m : Run End Error α) : Run Pair Error α :=
  Run.on Pair.dest (fun pair here => { pair with dest := here }) m

/-- The loop of `retire_source_material`: the source's changes are pending until its transaction
commits, the destination's are durable at once. -/
def retireLabels (operation : TransferOp) : List String → Ledger → Run Pair Error Ledger
  | [], pending => pure pending
  | label :: labels, pending =>
    match retireLabel operation label pending with
    | (.error e, _) => Run.check (.error e)
    | (.ok (id, target), pending) => do
        Run.ignore (atDest (onLedger (setGenerationAtLeast id target)))
        retireLabels operation labels pending

def retireSourceMaterial (tx : Id16) : Run Pair Error Unit := do
  let here ← Run.look
  let dest ← Run.check (here.dest.ledger.requireTx tx)
  Run.require dest.state.settled .transferIncomplete
  let row ← Run.check (here.source.ledger.requireTx tx)
  if row.packageHash ≠ dest.packageHash then do
    atSource (onLedger (setState tx .needsAdmin))
    atDest (onLedger (setState tx .needsAdmin))
    Run.check (.error .transferIncomplete)
  else do
    atSource (scrubMovedSlots tx)
    let here ← Run.look
    let pending ← retireLabels row.operation row.included here.source.ledger
    atSource (onLedger (do
      Op.modify fun _ => pending
      setState tx .sourceFinalized))

/-- Let the source go of what was moved; of the slots only, if its ghosts are already recorded. -/
def letGo (tx : Id16) (state : TxState) : Run Pair Error Unit :=
  if state ≠ .sourceFinalized then retireSourceMaterial tx else atSource (scrubMovedSlots tx)

/-- `finalize_source_in`. -/
def finalizeSource (tx : Id16) : Run Pair Error Unit := do
  let here ← Run.look
  let row ← Run.check (here.source.ledger.requireTx tx)
  if row.state = .completed then pure ()
  else do
    letGo tx row.state
    Run.ignore (atDest (onLedger (setState tx .completed)))
    atSource (onLedger (setState tx .completed))

/-- Take back what a transaction installed at a destination, if it was ever staged there. -/
def undoInstalled (tx : Id16) : Run End Error Unit := do
  let here ← Run.look
  match here.ledger.tx tx with
  | some row => do
      removeSlots row.installed
      onLedger (setState tx .aborted)
  | none => pure ()

/-- `abort_transfer_in`. -/
def abortTransfer (tx : Id16) : Run Pair Error Unit := do
  let here ← Run.look
  Run.require (!here.dest.ledger.destinationCommitted tx) .transferIncomplete
  atDest (undoInstalled tx)
  let here ← Run.look
  Run.when (here.source.ledger.txState tx = some .prepared
    || here.source.ledger.txState tx = some .aborted)
    (atSource (onLedger (setState tx .aborted)))

inductive Recovery where
  | finalized
  | aborted
  | alreadyComplete
  | needsAdmin
  deriving DecidableEq, Repr

/-- `recover_pair_in`. -/
def recoverPair (tx : Id16) : Run Pair Error Recovery := do
  let here ← Run.look
  let row ← Run.check (here.source.ledger.requireTx tx)
  if (here.dest.ledger.tx tx).any fun dest => row.packageHash ≠ dest.packageHash then do
    atSource (onLedger (setState tx .needsAdmin))
    atDest (onLedger (setState tx .needsAdmin))
    pure .needsAdmin
  else if row.state = .needsAdmin then pure .needsAdmin
  else if row.state = .completed then do
    Run.when (here.dest.ledger.tx tx).isSome (Run.ignore (atDest (onLedger (setState tx .completed))))
    pure .alreadyComplete
  else if row.state = .sourceFinalized then do
    finalizeSource tx
    pure .alreadyComplete
  else if here.dest.ledger.destinationCommitted tx then do
    finalizeSource tx
    pure .finalized
  else do
    abortTransfer tx
    pure .aborted

section Transfer

variable [Crypto] [KeyPairs]

/-- The steps of `transfer` after `prepare`; `source` is the key of the source's container. -/
def deliver (source : DeviceKey) (request : Request) (prepared : PreparedTransfer) :
    Run Pair Error Unit := do
  atDest (stageDestination source prepared.package request.auth.allowAncestorImport)
  atDest (writeDestinationSlots source prepared.package request.passphrases none)
  atDest (commitDestinationRows source prepared.package request.auth.allowAncestorImport)
  atDest (acknowledge prepared.bundle.id)
  finalizeSource prepared.bundle.id

/-- `transfer`: what fails before the destination has committed is aborted. -/
def transfer (request : Request) : Run Pair Error Id16 := do
  let here ← Run.look
  let prepared ← atSource (prepare request)
  Run.rescue (deliver here.source.container.key request prepared) fun e => do
    let here ← Run.look
    Run.when (!here.dest.ledger.destinationCommitted prepared.bundle.id)
      (Run.ignore (abortTransfer prepared.bundle.id))
    Run.check (.error e)
  pure prepared.bundle.id

end Transfer

end KeyQuorum.Transfer
