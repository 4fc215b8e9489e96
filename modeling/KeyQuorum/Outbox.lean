/-
  **A PERSON'S OUTBOX** (`outbox.rs`).

  A ring of sealed letters waiting to be sent.  `push` queues at the write
  pointer; a send claims the letter at the read pointer, delivers it with no
  transaction open and frees the slot in another transaction, if the slot
  still carries its claim; a drop frees the slot without a send.  Every
  queueing, send, drop and refusal is an event on the ring's timeline.

  A send is modelled by its three transactions, `sendClaim`, `sendRelease`
  and `unclaim`, and `sendHead` puts them together.
-/
import KeyQuorum.FileDelivery.Exchange
import KeyQuorum.Keys
import KeyQuorum.Letter
import KeyQuorum.Ring
import KeyQuorum.Ring.History

namespace KeyQuorum

open Foundation

/-! ## §1. Letters and slots. -/

/-- A letter that was queued.  `serial` numbers the queueings of one outbox; it is not stored and no
operation reads it. -/
structure QueuedLetter where
  serial : Nat
  kind : UInt8
  recipient : String
  content : Bytes
  contentHash : Digest
  deriving DecidableEq, Repr

/-- `claim_token`: drawn at random for each send. -/
abbrev ClaimToken := FixedBytes 12

/-- A row of `outbox_slots`: a letter, and the claim of a send on it with the time it was taken. -/
structure OutboxSlot where
  letter : QueuedLetter
  claim : Option (ClaimToken × Int)
  deriving DecidableEq, Repr

/-- `Refusal`: why a letter was turned away. -/
inductive Refusal where
  | noPassport
  | deviceLetter
  | unrecognisedDestination
  | outOfOrder
  | ringFull
  | oversized
  | tampered
  deriving DecidableEq, Repr

def Refusal.asStr : Refusal → String
  | .noPassport => "no_passport"
  | .deviceLetter => "device_letter"
  | .unrecognisedDestination => "unrecognised_destination"
  | .outOfOrder => "out_of_order"
  | .ringFull => "ring_full"
  | .oversized => "oversized"
  | .tampered => "tampered"

def Refusal.error (step : Option String) : Refusal → Error
  | .noPassport | .deviceLetter => .outboxItemRefused
  | .unrecognisedDestination => .untrustedRecipient
  | .outOfOrder => .exchangeOutOfOrder (step.getD "")
  | .ringFull => .outboxFull
  | .oversized => .bundleFieldTooLarge
  | .tampered => .integrityCheckFailed

/-- `Denied`: a refusal before it is recorded. -/
structure Denied where
  refusal : Refusal
  kind : Option UInt8
  step : Option String
  deriving DecidableEq, Repr

def Denied.new (refusal : Refusal) (kind : Option UInt8) : Denied := ⟨refusal, kind, none⟩

/-- One owner's rows: the ring with its slots, `sent_total`, the refusals kept (oldest first) and the
timeline.  `queued` counts the queueings. -/
structure Outbox where
  owner : String
  table : RingTable OutboxSlot
  sentTotal : Nat
  refusals : List (String × Denied)
  timeline : Timeline
  queued : Nat

/-- What a call finds around it: the keys the store holds, the clock (in seconds, and as the text of an
event's time) and a random event id. -/
structure OutboxEnv where
  db : Store
  now : Int
  occurredAt : String
  eventId : Id16

/-- `QueuedItem`: a held slot without its content. -/
structure QueuedItem where
  index : Nat
  kind : UInt8
  recipient : String
  contentHash : Digest
  len : Nat
  deriving DecidableEq, Repr

inductive RingState where
  | empty
  | partly
  | full
  deriving DecidableEq, Repr

namespace Outbox

def defaultCapacity : Nat := 32

def maxCapacity : Nat := 1024

def maxItemBytes : Nat := 16 * 1024 * 1024

def maxRefusalsKept : Nat := 256

def claimLeaseSecs : Int := 120

/-- `Ring::state`. -/
def stateOf (ring : Ring) : RingState :=
  if ring.size = 0 then .empty else if ring.capacity ≤ ring.size then .full else .partly

/-- `ring`: a person who has never queued anything has an empty ring. -/
def ring (box : Outbox) : Ring := box.table.ring.getD (Ring.new defaultCapacity (by decide))

def itemOf (index : Nat) (letter : QueuedLetter) : QueuedItem :=
  ⟨index, letter.kind, letter.recipient, letter.contentHash, letter.content.length⟩

def itemAt (table : RingTable OutboxSlot) (index : Nat) : Option QueuedItem :=
  (table.slots index).map fun slot => itemOf index slot.letter

/-- `list`: every held item, in the order sends will take them. -/
def list (box : Outbox) : Except Error (List QueuedItem) :=
  box.ring.window.mapM fun index => okOr (itemAt box.table index) .integrityCheckFailed

/-! ## §2. The checks at departure. -/

/-- `require_owner`: a person with an active key. -/
def requireOwner (db : Store) (owner : String) : Except Error Unit :=
  if (db.activeKeysFor owner .encryption).isEmpty && (db.activeKeysFor owner .signing).isEmpty then
    .error .nodeNotFound
  else .ok ()

def isDeviceWorkflowKind (kind : UInt8) : Bool := kind = 9 || kind = 10 || kind = 11 || kind = 12

/-- `passport`: the letter's kind and the key it is sealed to. -/
def passport (bytes : Bytes) : Except Refusal (UInt8 × Digest) :=
  match Letter.parseOuter bytes with
  | .error _ => .error .noPassport
  | .ok (kind, sealedTo, _) => if isDeviceWorkflowKind kind then .error .deviceLetter else .ok (kind, sealedTo)

def isTrusted (db : Store) (recipient : String) (sealedTo : Digest) : Bool :=
  db.isActiveKey recipient .encryption sealedTo.bytes

/-- The exchange step a letter is missing, as `departure_check` finds it. -/
def missingStep (owner recipient : String) (kind : UInt8) (copy : Option (TrackedFile × Exchange.Visa)) :
    Option String :=
  match Exchange.Step.forKind kind, copy with
  | none, _ | some .request, _ => none
  | some step, some (file, visa) =>
    match Exchange.requireStep file owner recipient step visa with
    | .error (.exchangeOutOfOrder missing) => some missing
    | _ => none
  | some step, none =>
    some ("a " ++ step.name ++ " needs your copy of the file it concerns, so its order can be checked")

/-- `departure_check`: size, passport, destination, then the exchange step. -/
def departureCheck (db : Store) (owner recipient : String) (bytes : Bytes)
    (copy : Option (TrackedFile × Exchange.Visa)) : Except Denied UInt8 :=
  if maxItemBytes < bytes.length then .error (.new .oversized none)
  else match passport bytes with
    | .error refusal => .error (.new refusal ((Letter.parseOuter bytes).toOption.map Prod.fst))
    | .ok (kind, sealedTo) =>
      if !isTrusted db recipient sealedTo then .error (.new .unrecognisedDestination (some kind))
      else match missingStep owner recipient kind copy with
        | some missing => .error ⟨.outOfOrder, some kind, some missing⟩
        | none => .ok kind

section Operations

variable [Crypto]

/-! ## §3. The timeline and the refusals. -/

/-- `timeline`: one event on the owner's ring timeline. -/
def note (box : Outbox) (env : OutboxEnv) (event : HistoryEventType) (outcome : HistoryOutcome)
    (details : EventDetails) : Except Error Timeline :=
  box.timeline.record env.eventId env.occurredAt event outcome (some box.owner) details

def slotDetails (item : QueuedItem) : EventDetails :=
  ((EventDetails.new.withDetail "slot" (toString item.index)).withDetail "to" item.recipient).withDetail
    "kind" (toString item.kind.toNat)

def refusalDetails (recipient : String) (denied : Denied) : EventDetails :=
  let to_ := EventDetails.new.withDetail "to" recipient
  let details := match denied.kind with
    | some kind => to_.withDetail "kind" (toString kind.toNat)
    | none => to_
  details.withDetail "reason" denied.refusal.asStr

/-- `write_refusal`: the event and the row; only the newest rows are kept. -/
def writeRefusal (env : OutboxEnv) (recipient : String) (denied : Denied) (box : Outbox) :
    Except Error (Unit × Outbox) := do
  let timeline ← box.note env .letterRefused .denied (refusalDetails recipient denied)
  let refusals := box.refusals ++ [(recipient, denied)]
  .ok ((), { box with timeline, refusals := refusals.drop (refusals.length - maxRefusalsKept) })

/-- `Denied::record`: the refusal is recorded, and is the caller's error either way. -/
def refuse {α : Type} (env : OutboxEnv) (recipient : String) (denied : Denied) : Op Outbox Error α := fun box =>
  match Op.transact (writeRefusal env recipient denied) box with
  | (.ok _, recorded) => (.error (denied.refusal.error denied.step), recorded)
  | (.error _, unrecorded) => (.error .usage, unrecorded)

/-! ## §4. Queueing. -/

section

variable (env : OutboxEnv) (recipient : String) (bytes : Bytes)

/-- The body of `queue`. -/
def queueBody (kind : UInt8) (box : Outbox) : Except Error (QueuedItem × Outbox) := do
  let ring ← box.table.ensure defaultCapacity
  if stateOf ring = .full then .error .outboxFull
  else do
    let letter : QueuedLetter := ⟨box.queued, kind, recipient, bytes, sha256 bytes⟩
    let written ← RingTable.insertSlot ⟨some ring, box.table.slots⟩ ring.writeIndex ⟨letter, none⟩
    let table ← written.advanceWrite ring
    let item ← okOr (itemAt table ring.writeIndex) .integrityCheckFailed
    let timeline ← box.note env .letterQueued .success (slotDetails item)
    .ok (item, { box with table, timeline, queued := box.queued + 1 })

/-- `queue`: write a checked letter at the write pointer. -/
def queue (kind : UInt8) : Op Outbox Error QueuedItem :=
  Op.transact (queueBody env recipient bytes kind)

def queueOrRefuse (kind : UInt8) : Op Outbox Error QueuedItem := fun box =>
  match queue env recipient bytes kind box with
  | (.error .outboxFull, unchanged) => refuse env recipient (.new .ringFull (some kind)) unchanged
  | result => result

def push (copy : Option (TrackedFile × Exchange.Visa)) : Op Outbox Error QueuedItem := fun box =>
  match requireOwner env.db box.owner with
  | .error e => (.error e, box)
  | .ok _ =>
    match departureCheck env.db box.owner recipient bytes copy with
    | .ok kind => queueOrRefuse env recipient bytes kind box
    | .error denied => refuse env recipient denied box

end

/-- The body of `set_capacity`. -/
def setCapacityBody (capacity : Nat) (box : Outbox) : Except Error (Ring × Outbox) := do
  let (resized, table) ← box.table.resize capacity
  if !resized then .error .outboxNotEmpty
  else do
    let ring ← okOr table.ring .integrityCheckFailed
    .ok (ring, { box with table })

def setCapacity (db : Store) (capacity : Nat) : Op Outbox Error Ring := fun box =>
  if capacity = 0 ∨ maxCapacity < capacity then (.error .invalidSlot, box)
  else match requireOwner db box.owner with
    | .error e => (.error e, box)
    | .ok _ => Op.transact (setCapacityBody capacity) box

/-! ## §5. Sending and dropping. -/

def releaseHead (box : Outbox) (head : Ring) (sent : Bool) : Outbox :=
  { box with
    table := box.table.release head.readIndex
    sentTotal := if sent then box.sentTotal + 1 else box.sentTotal }

/-- `Claimed`: whether a send or drop may take a head another send has freshly claimed. -/
inductive Claimed where
  | respect
  | takeOver
  deriving DecidableEq, Repr

/-- `freshly_claimed`: a claim taken less than the lease ago. -/
def freshlyClaimed (box : Outbox) (index : Nat) (now : Int) : Bool :=
  match box.table.slots index with
  | some slot => slot.claim.any fun claim => now - claimLeaseSecs < claim.2
  | none => false

def verdict (db : Store) (letter : QueuedLetter) : Option Refusal :=
  if sha256 letter.content ≠ letter.contentHash then some .tampered
  else match passport letter.content with
    | .error refusal => some refusal
    | .ok (_, sealedTo) =>
      if !isTrusted db letter.recipient sealedTo then some .unrecognisedDestination else none

/-- How claiming the head fails: with an error, or with a refusal to record. -/
inductive ClaimFailure where
  | failed (error : Error)
  | denied (recipient : String) (denied : Denied)

def withClaim (box : Outbox) (index : Nat) (slot : OutboxSlot) (token : ClaimToken) (now : Int) : Outbox :=
  { box with
    table := { box.table with
      slots := Function.update box.table.slots index (some { slot with claim := some (token, now) }) } }

/-- The claiming transaction of `send_head`. -/
def claimHead (env : OutboxEnv) (mode : Claimed) (token : ClaimToken) (box : Outbox) :
    Except ClaimFailure (Option (QueuedItem × QueuedLetter) × Outbox) :=
  if stateOf box.ring = .empty then .ok (none, box)
  else if mode = .respect && freshlyClaimed box box.ring.readIndex env.now then .error (.failed .usage)
  else match box.table.slots box.ring.readIndex with
    | none => .error (.failed .integrityCheckFailed)
    | some slot =>
      match verdict env.db slot.letter with
      | some refusal => .error (.denied slot.letter.recipient (.new refusal (some slot.letter.kind)))
      | none => .ok (some (itemOf box.ring.readIndex slot.letter, slot.letter),
          box.withClaim box.ring.readIndex slot token env.now)

/-- The first part of `send_head`: claim the letter at the read pointer.  A refusal is recorded after
the transaction, which rolls back. -/
def sendClaim (env : OutboxEnv) (mode : Claimed) (token : ClaimToken) :
    Op Outbox Error (Option (QueuedItem × QueuedLetter)) := fun box =>
  match claimHead env mode token box with
  | .ok (found, claimed) => (.ok found, claimed)
  | .error (.failed e) => (.error e, box)
  | .error (.denied recipient denied) => refuse env recipient denied box

def carries (token : ClaimToken) (slot : OutboxSlot) : Bool := slot.claim.any fun claim => claim.1 = token

/-- The transaction of `unclaim`: clear the claim wherever it stands. -/
def unclaim (token : ClaimToken) (box : Outbox) : Outbox :=
  { box with
    table := { box.table with
      slots := fun i => (box.table.slots i).map fun slot =>
        if carries token slot then { slot with claim := none } else slot } }

/-- `still_ours`: the head still carries the claim. -/
def stillOurs (token : ClaimToken) (box : Outbox) : Bool :=
  stateOf box.ring ≠ .empty && (box.table.slots box.ring.readIndex).any (carries token)

/-- The body of the last transaction of `send_head`. -/
def sendReleaseBody (env : OutboxEnv) (token : ClaimToken) (item : QueuedItem) (box : Outbox) :
    Except Error (Unit × Outbox) :=
  if stillOurs token box then do
    let timeline ← box.note env .letterSent .success (slotDetails item)
    .ok ((), { box.releaseHead box.ring true with timeline })
  else .ok ((), box)

/-- The last part of `send_head`: free the slot if it is still this send's. -/
def sendRelease (env : OutboxEnv) (token : ClaimToken) (item : QueuedItem) : Op Outbox Error Unit :=
  Op.transact (sendReleaseBody env token item)

/-- `send_head`: claim, deliver, release; any failure after the claim frees it. -/
def sendHead (claimEnv releaseEnv : OutboxEnv) (mode : Claimed) (token : ClaimToken)
    (deliver : QueuedItem → Bytes → Except Error Unit) : Op Outbox Error (Option QueuedItem) := fun box =>
  match sendClaim claimEnv mode token box with
  | (.error e, after) => (.error e, after)
  | (.ok none, after) => (.ok none, after)
  | (.ok (some (item, letter)), claimed) =>
    match deliver item letter.content with
    | .error e => (.error e, unclaim token claimed)
    | .ok _ =>
      match sendRelease releaseEnv token item claimed with
      | (.ok _, released) => (.ok (some item), released)
      | (.error e, unreleased) => (.error e, unclaim token unreleased)

section

variable (claimEnv releaseEnv : OutboxEnv) (token : ClaimToken)
    (deliver : QueuedItem → Bytes → Except Error Unit)

def sendNext : Op Outbox Error (Option QueuedItem) :=
  sendHead claimEnv releaseEnv .respect token deliver

def sendNextTakingOver : Op Outbox Error (Option QueuedItem) :=
  sendHead claimEnv releaseEnv .takeOver token deliver

end

/-- The body of `drop_head`. -/
def dropBody (env : OutboxEnv) (mode : Claimed) (box : Outbox) : Except Error (Option QueuedItem × Outbox) :=
  if stateOf box.ring = .empty then .ok (none, box)
  else if mode = .respect && freshlyClaimed box box.ring.readIndex env.now then .error .usage
  else do
    let item ← okOr (itemAt box.table box.ring.readIndex) .integrityCheckFailed
    let timeline ← box.note env .letterDropped .info (slotDetails item)
    .ok (some item, { box.releaseHead box.ring false with timeline })

/-- `drop_head`: `drop_next` respects a fresh claim, `drop_next_taking_over` does not. -/
def dropHead (env : OutboxEnv) (mode : Claimed) : Op Outbox Error (Option QueuedItem) :=
  Op.transact (dropBody env mode)

def unused (owner : String) : Outbox where
  owner := owner
  table := ⟨none, fun _ => none⟩
  sentTotal := 0
  refusals := []
  timeline := Timeline.empty "outbox" owner
  queued := 0

end Operations

end Outbox

end KeyQuorum
