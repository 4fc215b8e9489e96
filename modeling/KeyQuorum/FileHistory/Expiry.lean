/-
  **EXPIRY** of a tracked file (`file_history/expiry.rs`): an expiry is an
  event; when it passes, every payload is destroyed at once and the container
  stays behind as a tombstone.
-/
import KeyQuorum.FileHistory.Growth

namespace KeyQuorum

open List Foundation

/-- `ExpiryContext`: who is acting, and when. -/
structure ExpiryContext where
  actorIdentity : Option Id16
  actorLabel : Option String
  occurredAt : String
  topologyGeneration : Option UInt64
  deriving DecidableEq, Repr

def ExpiryContext.event (context : ExpiryContext) (kind : HistoryEventType)
    (outcome : HistoryOutcome) (details : EventDetails) : NewEvent where
  revisionId := none
  occurredAt := context.occurredAt
  actorIdentity := context.actorIdentity
  actorLabel := context.actorLabel
  topologyGeneration := context.topologyGeneration
  eventType := kind
  outcome := outcome
  details := details

/-! ## §1. Instants. -/

/-- The `len` bytes at `start` are ASCII digits. -/
def digitsAt (b : Bytes) (start len : Nat) : Bool :=
  ((b.drop start).take len).all (fun c => 48 ≤ c && c ≤ 57)

/-- `parse::<u32>` of the digits at `start`. -/
def numAt (b : Bytes) (start len : Nat) : Nat :=
  ((b.drop start).take len).foldl (fun n c => 10 * n + (c.toNat - 48)) 0

/-- `is_instant`: `YYYY-MM-DDTHH:MM:SSZ` with plausible ranges. -/
def isInstant (value : String) : Bool :=
  let b := utf8Bytes value
  b.length = 20
    && digitsAt b 0 4 && b[4]? = some 45 && digitsAt b 5 2 && b[7]? = some 45 && digitsAt b 8 2
    && b[10]? = some 84 && digitsAt b 11 2 && b[13]? = some 58 && digitsAt b 14 2
    && b[16]? = some 58 && digitsAt b 17 2 && b[19]? = some 90
    && 1 ≤ numAt b 5 2 && numAt b 5 2 ≤ 12
    && 1 ≤ numAt b 8 2 && numAt b 8 2 ≤ 31
    && numAt b 11 2 < 24 && numAt b 14 2 < 60 && numAt b 17 2 < 60

example : isInstant "2026-02-03T23:59:00Z" = true := by decide +kernel

example : isInstant "2026-02-03T24:00:00Z" = false := by decide +kernel

namespace TrackedFile

/-- `expires_at`: the expiry most recently scheduled. -/
def expiresAt (f : TrackedFile) : Option String :=
  (f.events.reverse.find? (fun event => event.eventType = .expiryScheduled)).bind
    (fun event => event.details.get "expires_at")

/-- `is_expired_at`: the order of the two texts is the order of their bytes. -/
def isExpiredAt (f : TrackedFile) (now : String) : Bool :=
  match f.expiresAt with
  | some instant => !(utf8Bytes now < utf8Bytes instant)
  | none => false

/-! ## §2. Destroying the content. -/

def wipePayloads (f : TrackedFile) : TrackedFile :=
  { f with revisions := f.revisions.map (fun stored => { stored with payload := none }) }

/-- `revisions.iter_mut().zip(payloads)`: put each payload back. -/
def zipPayloads : List StoredRevision → List (Option Bytes) → List StoredRevision
  | stored :: revisions, payload :: payloads =>
    { stored with payload } :: zipPayloads revisions payloads
  | revisions, [] => revisions
  | [], _ :: _ => []

/-- The error path of `destroy_content`. -/
def restorePayloads (payloads : List (Option Bytes)) (f : TrackedFile) : TrackedFile :=
  { f with revisions := zipPayloads f.revisions payloads }

theorem restorePayloads_wipePayloads (f : TrackedFile) :
    restorePayloads (f.revisions.map StoredRevision.payload) f.wipePayloads = f := by
  have hzip (l : List StoredRevision) :
      zipPayloads (l.map (fun stored => { stored with payload := none }))
        (l.map StoredRevision.payload) = l := by
    induction l with
    | nil => rfl
    | cons stored l ih => rw [map_cons, map_cons, zipPayloads, ih]
  rw [restorePayloads, wipePayloads, hzip]

def payloadCount (f : TrackedFile) : Nat :=
  (f.revisions.filter (fun stored => stored.payload.isSome)).length

/-- The details of the `FILE_EXPIRED` event. -/
def expiredDetails (f : TrackedFile) (reason : String) : EventDetails :=
  let expired := EventDetails.new.withDetail "reason" reason
  match f.expiresAt with
  | some instant => expired.withDetail "expires_at" instant
  | none => expired

section Destroying

variable [Crypto]

def scheduleExpiry (rng : Nat → Id16) (instant : String) (context : ExpiryContext) :
    FileOp Unit := do
  let file ← Op.read
  Op.require (!(file.isDestroyed || !isInstant instant)) .invalidTrackedFile
  let _ ← append rng (context.event .expiryScheduled .info
    (EventDetails.new.withDetail "expires_at" instant))
  pure ()

def recordExpiredAccess (rng : Nat → Id16) (action : String) (context : ExpiryContext) :
    FileOp Unit := do
  let _ ← append rng (context.event .expiredAccessAttempt .denied
    (EventDetails.new.withDetail "action" action))
  pure ()

theorem scheduleExpiry_atomic :
    Op.Atomic (scheduleExpiry rng instant context) :=
  .read_bind fun _ => .require_bind <| append_atomic.bind_pure fun _ => ()

theorem recordExpiredAccess_atomic :
    Op.Atomic (recordExpiredAccess rng action context) :=
  append_atomic.bind_pure fun _ => ()

variable [CharTable]

section

variable (rng : Nat → Id16) (reason : String) (context : ExpiryContext)

/-- The two events of `destroy_content`, and the check of what they leave. -/
def recordDestruction (destroyed : Nat) : FileOp Unit := do
  let file ← Op.read
  -- the payloads are gone already, so the first append is made on a file that does not verify
  let _ ← append rng (context.event .fileExpired .info (file.expiredDetails reason))
  let _ ← append rng (context.event .contentDestroyed .success
    (EventDetails.new.withDetail "revisions_destroyed" (toString (destroyed % 2 ^ 64))))
  let file ← Op.read
  let _ ← Op.lift (verifyStructure file)
  pure ()

/-- Wipe, record, and put every payload of `file` back if recording fails. -/
def wipeAndRecord (file : TrackedFile) : FileOp Unit := do
  Op.modify wipePayloads
  Op.rollback (fun _ after => restorePayloads (file.revisions.map StoredRevision.payload) after)
    (atomically (recordDestruction rng reason context file.payloadCount))

/-- `destroy_content`: returns how many payloads were destroyed. -/
def destroyContent : FileOp Nat := do
  let file ← Op.read
  Op.require (!file.isDestroyed) .fileExpired
  wipeAndRecord rng reason context file
  pure file.payloadCount

end

/-- `expire_if_due`: whether it destroyed the content. -/
def expireIfDue (rng : Nat → Id16) (now : String) (context : ExpiryContext) : FileOp Bool := do
  let file ← Op.read
  if file.isDestroyed || !file.isExpiredAt now then pure false
  else do
    let _ ← destroyContent rng "scheduled expiry passed" context
    pure true

theorem scheduleExpiry_moves [IsPreorder TrackedFile R] (hR : StepClosed R) :
    Op.Moves R (scheduleExpiry rng instant context) :=
  .read_bind fun _ => .require_bind <| (hR.append rng _ rfl).bind fun _ => .pure ()

theorem recordExpiredAccess_moves [IsPreorder TrackedFile R] (hR : StepClosed R)
    : Op.Moves R (recordExpiredAccess rng action context) :=
  (hR.append rng _ rfl).bind fun _ => .pure ()

/-! ## §3. All or nothing. -/

theorem recordDestruction_extends (rng : Nat → Id16) (reason : String) (context : ExpiryContext)
    (destroyed : Nat) : Op.Moves Extends (recordDestruction rng reason context destroyed) :=
  .read_bind fun _ => append_extends.bind fun _ => append_extends.bind
    fun _ => .read_bind fun _ => .lift_bind fun _ => .pure ()

theorem wipeAndRecord_error (h : wipeAndRecord rng reason context f f = (.error e, f')) : f' = f := by
  have hrecord := atomically_atomic
    (recordDestruction_extends rng reason context f.payloadCount) f.wipePayloads
  rw [wipeAndRecord, Op.modify_bind, Op.rollback] at h
  split at h
  next => cases h
  next e' mid hmid =>
    rw [hmid] at hrecord
    obtain rfl : mid = f.wipePayloads := hrecord e' rfl
    rw [← (Prod.mk.inj h).2]
    exact restorePayloads_wipePayloads f

/-- **A failed destruction changes nothing.** -/
theorem destroyContent_atomic :
    Op.Atomic (destroyContent rng reason context) := by
  refine .read_bind_self fun f e f' h => ?_
  rcases Op.require_bind_error h with hsame | h
  · exact hsame
  · exact wipeAndRecord_error (Op.bind_pure_error h)

theorem expireIfDue_atomic : Op.Atomic (expireIfDue rng now context) := by
  refine .read_bind fun file => ?_
  split
  · exact .pure false
  · exact destroyContent_atomic.bind_pure fun _ => true

/-! ## §4. The tombstone verifies. -/

theorem destroyContent_wellFormed (h : destroyContent rng reason context f = (.ok n, f')) :
    WellFormed f' := by
  obtain ⟨-, h⟩ := Op.require_bind_ok (Op.read_bind_ok h)
  obtain ⟨_, mid, hwipe, h⟩ := Op.bind_ok h
  obtain ⟨-, rfl⟩ := Op.pure_ok h
  rw [wipeAndRecord, Op.modify_bind] at hwipe
  have h₁ := Op.rollback_ok (Op.rollback_ok hwipe)
  obtain ⟨_, _, -, h₂⟩ := Op.bind_ok (Op.read_bind_ok h₁)
  obtain ⟨_, last, -, h₃⟩ := Op.bind_ok h₂
  obtain ⟨_, hverify, h₄⟩ := Op.lift_bind_ok (Op.read_bind_ok h₃)
  obtain ⟨-, rfl⟩ := Op.pure_ok h₄
  exact (verifyStructure_ok_iff.mp hverify).1

end Destroying

end TrackedFile

end KeyQuorum
