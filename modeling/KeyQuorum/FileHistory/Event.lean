/-
  **HISTORY EVENTS AND THE HASH CHAIN OVER THEM** (`file_history/event.rs`).

  `event_hash = SHA-256("KQ-FILE-HISTORY-v1" || body)`, and the body carries
  the previous event's hash, so each hash commits to the whole history
  before it.  The chain starts from a per-file genesis hash.
-/
import KeyQuorum.FileHistory.Codec
import KeyQuorum.Foundation.HashChain

namespace KeyQuorum

open List Foundation

def historyDomain : Bytes := utf8Bytes "KQ-FILE-HISTORY-v1"

def genesisDomain : Bytes := utf8Bytes "KQ-FILE-HISTORY-GENESIS-v1"

/-! ## §1. Wire codes. -/

inductive HistoryEventType where
  | trackingStarted
  | editCheckedIn
  | revisionSigned
  | countersignatureAdded
  | policyDecision
  | shareAttempted
  | shareDelivered
  | fileExpired
  | contentDestroyed
  | tamperDetected
  | autoMergeAttempted
  | autoMergeFastForward
  | autoMergeEquivalent
  | autoMergeClean
  | autoMergeBlocked
  | autoMergeRequiresHuman
  | historyForkDetected
  | contentConflictDetected
  | conflictReviewAssigned
  | conflictReviewEscalated
  | bridgeUsed
  | conflictUnresolved
  | historyImported
  | quorumUnlockAttempted
  | passwordUnlockAttempted
  | expiredAccessAttempt
  | gateLinked
  | shareLinkCreated
  | shareLinkRedeemed
  | shareLinkRevoked
  | expiryScheduled
  | fileRenamed
  | revisionFinalized
  | conflictResolved
  | mergeRejected
  | revisionCheckedOut
  | verificationRun
  | historyExported
  | fileRequested
  | changeRequested
  | requestAnswered
  | letterQueued
  | letterSent
  | letterDropped
  | letterRefused
  | letterReceived
  | letterOpened
  | errorReported
  deriving DecidableEq, Repr

/-- `event_type as u8`. -/
def HistoryEventType.code : HistoryEventType → UInt8
  | .trackingStarted => 1
  | .editCheckedIn => 2
  | .revisionSigned => 3
  | .countersignatureAdded => 4
  | .policyDecision => 5
  | .shareAttempted => 6
  | .shareDelivered => 7
  | .fileExpired => 8
  | .contentDestroyed => 9
  | .tamperDetected => 10
  | .autoMergeAttempted => 11
  | .autoMergeFastForward => 12
  | .autoMergeEquivalent => 13
  | .autoMergeClean => 14
  | .autoMergeBlocked => 15
  | .autoMergeRequiresHuman => 16
  | .historyForkDetected => 17
  | .contentConflictDetected => 18
  | .conflictReviewAssigned => 19
  | .conflictReviewEscalated => 20
  | .bridgeUsed => 21
  | .conflictUnresolved => 22
  | .historyImported => 23
  | .quorumUnlockAttempted => 24
  | .passwordUnlockAttempted => 25
  | .expiredAccessAttempt => 26
  | .gateLinked => 27
  | .shareLinkCreated => 28
  | .shareLinkRedeemed => 29
  | .shareLinkRevoked => 30
  | .expiryScheduled => 31
  | .fileRenamed => 32
  | .revisionFinalized => 33
  | .conflictResolved => 34
  | .mergeRejected => 35
  | .revisionCheckedOut => 36
  | .verificationRun => 37
  | .historyExported => 38
  | .fileRequested => 39
  | .changeRequested => 40
  | .requestAnswered => 41
  | .letterQueued => 42
  | .letterSent => 43
  | .letterDropped => 44
  | .letterRefused => 45
  | .letterReceived => 46
  | .letterOpened => 47
  | .errorReported => 48

def HistoryEventType.fromU8 : UInt8 → Except Error HistoryEventType
  | 1 => .ok .trackingStarted
  | 2 => .ok .editCheckedIn
  | 3 => .ok .revisionSigned
  | 4 => .ok .countersignatureAdded
  | 5 => .ok .policyDecision
  | 6 => .ok .shareAttempted
  | 7 => .ok .shareDelivered
  | 8 => .ok .fileExpired
  | 9 => .ok .contentDestroyed
  | 10 => .ok .tamperDetected
  | 11 => .ok .autoMergeAttempted
  | 12 => .ok .autoMergeFastForward
  | 13 => .ok .autoMergeEquivalent
  | 14 => .ok .autoMergeClean
  | 15 => .ok .autoMergeBlocked
  | 16 => .ok .autoMergeRequiresHuman
  | 17 => .ok .historyForkDetected
  | 18 => .ok .contentConflictDetected
  | 19 => .ok .conflictReviewAssigned
  | 20 => .ok .conflictReviewEscalated
  | 21 => .ok .bridgeUsed
  | 22 => .ok .conflictUnresolved
  | 23 => .ok .historyImported
  | 24 => .ok .quorumUnlockAttempted
  | 25 => .ok .passwordUnlockAttempted
  | 26 => .ok .expiredAccessAttempt
  | 27 => .ok .gateLinked
  | 28 => .ok .shareLinkCreated
  | 29 => .ok .shareLinkRedeemed
  | 30 => .ok .shareLinkRevoked
  | 31 => .ok .expiryScheduled
  | 32 => .ok .fileRenamed
  | 33 => .ok .revisionFinalized
  | 34 => .ok .conflictResolved
  | 35 => .ok .mergeRejected
  | 36 => .ok .revisionCheckedOut
  | 37 => .ok .verificationRun
  | 38 => .ok .historyExported
  | 39 => .ok .fileRequested
  | 40 => .ok .changeRequested
  | 41 => .ok .requestAnswered
  | 42 => .ok .letterQueued
  | 43 => .ok .letterSent
  | 44 => .ok .letterDropped
  | 45 => .ok .letterRefused
  | 46 => .ok .letterReceived
  | 47 => .ok .letterOpened
  | 48 => .ok .errorReported
  | _ => .error .invalidTrackedFile

theorem HistoryEventType.fromU8_code (t : HistoryEventType) : fromU8 t.code = .ok t := by
  cases t <;> rfl

theorem HistoryEventType.fromU8_ok (h : fromU8 v = .ok t) : v = t.code := by
  unfold fromU8 at h
  split at h <;> cases h <;> rfl

inductive HistoryOutcome where
  | success
  | failure
  | denied
  | info
  deriving DecidableEq, Repr

/-- `outcome as u8`. -/
def HistoryOutcome.code : HistoryOutcome → UInt8
  | .success => 1
  | .failure => 2
  | .denied => 3
  | .info => 4

def HistoryOutcome.fromU8 : UInt8 → Except Error HistoryOutcome
  | 1 => .ok .success
  | 2 => .ok .failure
  | 3 => .ok .denied
  | 4 => .ok .info
  | _ => .error .invalidTrackedFile

theorem HistoryOutcome.fromU8_code (o : HistoryOutcome) : fromU8 o.code = .ok o := by
  cases o <;> rfl

theorem HistoryOutcome.fromU8_ok (h : fromU8 v = .ok o) : v = o.code := by
  unfold fromU8 at h
  split at h <;> cases h <;> rfl

/-! ## §2. Details. -/

/-- `EventDetails`: ordered key/value facts about an event. -/
structure EventDetails where
  entries : List (String × String)
  deriving DecidableEq, Repr

/-- `SAFE_DETAIL_KEYS`: every key a producer may append. -/
def safeDetailKeys : List String :=
  ["action", "answers", "approval", "approvals", "base", "base_revision", "by", "bundle_type",
   "candidate", "container_commitment", "container_hash", "custody", "denied", "decision",
   "delivery_id", "devices", "error_class", "error_code", "error_ref", "expires_at",
   "fallback_reason", "for_actor", "freshness", "from", "from_history_root", "gate", "gate_file",
   "kind", "left", "letter_id", "minimum_devices", "operation", "pending", "pin", "presented",
   "proofs_added", "reason", "redeemer", "relation", "relationship", "result", "request_id",
   "request_kind", "reviewer", "revision_a", "revision_b", "revisions", "revisions_added",
   "revisions_destroyed", "resolution", "right", "scope", "selection_rule", "satisfied_by",
   "share", "shareable", "shares", "signing_mode", "slot", "state", "threshold", "to",
   "trust_state", "trusted"]

namespace EventDetails

def new : EventDetails := ⟨[]⟩

/-- `EventDetails::with`. -/
def withDetail (d : EventDetails) (key value : String) : EventDetails := ⟨d.entries ++ [(key, value)]⟩

/-- `EventDetails::get`: the value of the first entry named `key`. -/
def get (d : EventDetails) (key : String) : Option String :=
  (d.entries.find? (fun entry => entry.1 = key)).map Prod.snd

/-- `EventDetails::unsafe_key`: the first key that is not a safe one. -/
def unsafeKey (d : EventDetails) : Option String :=
  (d.entries.map Prod.fst).find? (fun key => !safeDetailKeys.contains key)

end EventDetails

/-! ## §3. Events. -/

structure NewEvent where
  revisionId : Option Digest
  occurredAt : String
  actorIdentity : Option Id16
  actorLabel : Option String
  topologyGeneration : Option UInt64
  eventType : HistoryEventType
  outcome : HistoryOutcome
  details : EventDetails
  deriving DecidableEq, Repr

/-- A recorded event: what the caller supplied, and its place in the chain. -/
structure HistoryEvent where
  eventId : Id16
  sequence : UInt64
  fileId : Id16
  revisionId : Option Digest
  previousEventHash : Digest
  eventHash : Digest
  occurredAt : String
  actorIdentity : Option Id16
  actorLabel : Option String
  topologyGeneration : Option UInt64
  eventType : HistoryEventType
  outcome : HistoryOutcome
  details : EventDetails
  deriving DecidableEq, Repr

def pushDetail (entry : String × String) : Except Error Bytes := do
  let key ← pushStr entry.1
  let value ← pushStr entry.2
  .ok [key, value].flatten

def takeDetail : Reader Error (String × String) := do
  let key ← takeStr
  let value ← takeStr
  pure (key, value)

namespace HistoryEvent

/-- `HistoryEvent::body`: every field except `event_hash`. -/
def body (e : HistoryEvent) : Except Error Bytes := do
  let revisionId ← pushOptArray e.revisionId
  let occurredAt ← pushStr e.occurredAt
  let actorIdentity ← pushOptArray e.actorIdentity
  let actorLabel ← pushOptStr e.actorLabel
  let topologyGeneration ← pushOptU64 e.topologyGeneration
  let details ← pushList 2 pushDetail e.details.entries
  .ok [e.eventId.bytes, pushU64 e.sequence, e.fileId.bytes, revisionId,
    e.previousEventHash.bytes, occurredAt, actorIdentity, actorLabel, topologyGeneration,
    [e.eventType.code], [e.outcome.code], details].flatten

def encode (e : HistoryEvent) : Except Error Bytes := do
  let body ← e.body
  .ok [body, e.eventHash.bytes].flatten

def decode : Reader Error HistoryEvent := do
  let eventId ← takeFixed 16
  let sequence ← takeU64
  let fileId ← takeFixed 16
  let revisionId ← takeOptArray 32
  let previousEventHash ← takeFixed 32
  let occurredAt ← takeStr
  let actorIdentity ← takeOptArray 16
  let actorLabel ← takeOptStr
  let topologyGeneration ← takeOptU64
  let eventTypeCode ← takeByte
  let eventType ← Reader.lift (HistoryEventType.fromU8 eventTypeCode)
  let outcomeCode ← takeByte
  let outcome ← Reader.lift (HistoryOutcome.fromU8 outcomeCode)
  let details ← takeList 2 takeDetail
  let eventHash ← takeFixed 32
  pure {
    eventId, sequence, fileId, revisionId, previousEventHash, eventHash, occurredAt
    actorIdentity, actorLabel, topologyGeneration, eventType, outcome, details := ⟨details⟩ }

end HistoryEvent

/-! ## §4. The codec is unambiguous. -/

theorem takeDetail_inverts : Inverts pushDetail takeDetail := by
  refine Spells.inverts (w := ?w) ?fields ?layout
  case fields =>
    refine takeStr_inverts.field Prod.fst fun _ => takeStr_inverts.field Prod.snd fun _ => .record ?_
    simp [Prod.ext_iff, and_comm]
  case layout =>
    intro entry
    simp [pushDetail, andThen]

namespace HistoryEvent

theorem decode_inverts : Inverts encode decode := by
  refine Spells.inverts (w := ?w) ?fields ?layout
  case fields =>
    unfold decode
    refine (takeFixed_inverts 16).field eventId fun _ =>
      takeU64_inverts.field sequence fun _ =>
      (takeFixed_inverts 16).field fileId fun _ =>
      (takeOptArray_inverts 32).field revisionId fun _ =>
      (takeFixed_inverts 32).field previousEventHash fun _ =>
      takeStr_inverts.field occurredAt fun _ =>
      (takeOptArray_inverts 16).field actorIdentity fun _ =>
      takeOptStr_inverts.field actorLabel fun _ =>
      takeOptU64_inverts.field topologyGeneration fun _ =>
      takeByte_inverts.codedField HistoryEventType.fromU8_code HistoryEventType.fromU8_ok eventType
        fun _ =>
      takeByte_inverts.codedField HistoryOutcome.fromU8_code HistoryOutcome.fromU8_ok outcome fun _ =>
      (takeList_inverts 2 takeDetail_inverts).field (fun e => e.details.entries) fun _ =>
      (takeFixed_inverts 32).field eventHash fun _ => .record fun e => ?_
    cases e
    grind [cases EventDetails]
  case layout =>
    intro e
    simp [encode, body, andThen]

theorem eq_of_body_eq {x y : HistoryEvent} (hx : x.body = .ok bytes) (hy : y.body = .ok bytes)
    (hhash : x.eventHash = y.eventHash) : x = y := by
  have hex : x.encode = .ok [bytes, x.eventHash.bytes].flatten := by simp [encode, hx]
  have hey : y.encode = .ok [bytes, x.eventHash.bytes].flatten := by simp [encode, hy, hhash]
  exact (decode_inverts.injective hex hey (rfl : _ ++ [] = _ ++ [])).1

end HistoryEvent

structure NewEvent.Fits (new : NewEvent) : Prop where
  occurredAt : FitsField new.occurredAt
  actorLabel : ∀ label, new.actorLabel = some label → FitsField label
  count : new.details.entries.length < 256 ^ 2
  details : ∀ entry ∈ new.details.entries, FitsField entry.1 ∧ FitsField entry.2

variable {e : HistoryEvent}

theorem HistoryEvent.body_total (hat : FitsField e.occurredAt)
    (hlabel : ∀ label, e.actorLabel = some label → FitsField label)
    (hcount : e.details.entries.length < 256 ^ 2)
    (hdetails : ∀ entry ∈ e.details.entries, FitsField entry.1 ∧ FitsField entry.2) :
    ∃ bytes, e.body = .ok bytes := by
  obtain ⟨revisionId, hrev⟩ : ∃ bytes, pushOptArray e.revisionId = .ok bytes :=
    pushOpt_total fun a _ => ⟨a.bytes, rfl⟩
  obtain ⟨occurredAt, hocc⟩ := pushStr_isOk_iff.mpr hat
  obtain ⟨actorIdentity, hid⟩ : ∃ bytes, pushOptArray e.actorIdentity = .ok bytes :=
    pushOpt_total fun a _ => ⟨a.bytes, rfl⟩
  obtain ⟨actorLabel, hlab⟩ : ∃ bytes, pushOptStr e.actorLabel = .ok bytes :=
    pushOpt_total fun label h => pushStr_isOk_iff.mpr (hlabel label h)
  obtain ⟨topologyGeneration, hgen⟩ : ∃ bytes, pushOptU64 e.topologyGeneration = .ok bytes :=
    pushOpt_total fun x _ => ⟨pushU64 x, rfl⟩
  obtain ⟨details, hdet⟩ : ∃ bytes, pushList 2 pushDetail e.details.entries = .ok bytes := by
    refine pushList_total hcount fun entry hentry => ?_
    obtain ⟨key, hkey⟩ := pushStr_isOk_iff.mpr (hdetails entry hentry).1
    obtain ⟨value, hvalue⟩ := pushStr_isOk_iff.mpr (hdetails entry hentry).2
    exact ⟨[key, value].flatten, by simp [pushDetail, hkey, hvalue]⟩
  refine ⟨?bytes, ?written⟩
  case written =>
    simp only [body, hrev, hocc, hid, hlab, hgen, hdet, except_ok_bind]
    rfl

/-! ## §5. Hashes. -/

section Hashes

variable [Crypto]

/-- `genesis_hash`: where every chain for `fileId` starts. -/
def genesisHash (fileId : Id16) : Digest := sha256 (genesisDomain ++ fileId.bytes)

namespace HistoryEvent

def computeHash (e : HistoryEvent) : Except Error Digest := do
  let body ← e.body
  .ok (sha256 (historyDomain ++ body))

/-- `HistoryEvent::seal`. -/
def sealEvent (eventId : Id16) (sequence : UInt64) (fileId : Id16) (previousEventHash : Digest)
    (new : NewEvent) : Except Error HistoryEvent := do
  let event : HistoryEvent := {
    eventId, sequence, fileId
    revisionId := new.revisionId
    previousEventHash
    eventHash := FixedBytes.zero 32
    occurredAt := new.occurredAt
    actorIdentity := new.actorIdentity
    actorLabel := new.actorLabel
    topologyGeneration := new.topologyGeneration
    eventType := new.eventType
    outcome := new.outcome
    details := new.details }
  let hash ← event.computeHash
  .ok { event with eventHash := hash }

/-- What one event must satisfy at position `index` of the chain of `fileId`. -/
structure SealedAt (fileId : Id16) (index : Nat) (e : HistoryEvent) : Prop where
  sequence : e.sequence = UInt64.ofNat index
  fileId : e.fileId = fileId
  hash : e.computeHash = .ok e.eventHash

variable {eventId fileId : Id16} {previous : Digest} {new : NewEvent}

theorem sealEvent_ok (h : sealEvent eventId (UInt64.ofNat index) fileId previous new = .ok e) :
    e.SealedAt fileId index ∧ e.previousEventHash = previous ∧ e.revisionId = new.revisionId ∧
      e.eventType = new.eventType ∧ e.details = new.details := by
  obtain ⟨hash, hhash, h⟩ := try_ok h
  cases h
  -- the body does not read `event_hash`, so filling it in changes nothing that was hashed
  exact ⟨⟨rfl, rfl, hhash⟩, rfl, rfl, rfl, rfl⟩

theorem sealEvent_total {sequence : UInt64} (h : new.Fits) :
    ∃ e, sealEvent eventId sequence fileId previous new = .ok e := by
  unfold sealEvent
  obtain ⟨bytes, hbytes⟩ := body_total (e := {
    eventId, sequence, fileId, revisionId := new.revisionId, previousEventHash := previous
    eventHash := FixedBytes.zero 32, occurredAt := new.occurredAt
    actorIdentity := new.actorIdentity, actorLabel := new.actorLabel
    topologyGeneration := new.topologyGeneration, eventType := new.eventType
    outcome := new.outcome, details := new.details }) h.occurredAt h.actorLabel h.count h.details
  simp only [computeHash, hbytes, except_ok_bind]
  exact ⟨_, rfl⟩

end HistoryEvent

/-! ## §6. The chain. -/

/-- The loop of `verify_chain`, at position `index` with the hash before it. -/
def verifyChainFrom (fileId : Id16) : Nat → Digest → List HistoryEvent → Except Error Digest
  | _, previous, [] => .ok previous
  | index, previous, event :: events =>
    if event.sequence ≠ UInt64.ofNat index ∨ event.fileId ≠ fileId
        ∨ event.previousEventHash ≠ previous then
      .error .invalidTrackedFile
    else do
      let hash ← event.computeHash
      if hash ≠ event.eventHash then .error .invalidTrackedFile
      else verifyChainFrom fileId (index + 1) event.eventHash events

/-- `verify_chain`: the history root of an unbroken chain. -/
def verifyChain (fileId : Id16) (events : List HistoryEvent) : Except Error Digest :=
  verifyChainFrom fileId 0 (genesisHash fileId) events

def chainTip (fileId : Id16) (events : List HistoryEvent) : Digest :=
  HashChain.tip HistoryEvent.eventHash (genesisHash fileId) events

/-- An unbroken chain: linked from genesis, every event sealed at its own position. -/
structure ChainOk (fileId : Id16) (events : List HistoryEvent) : Prop where
  linked : HashChain.Linked HistoryEvent.previousEventHash HistoryEvent.eventHash
    (genesisHash fileId) events
  sealed : ∀ (i : Nat) e, events[i]? = some e → e.SealedAt fileId i

theorem verifyChainFrom_ok_iff (fileId : Id16) (index : Nat) (previous root : Digest)
    (events : List HistoryEvent) :
    verifyChainFrom fileId index previous events = .ok root ↔
      (HashChain.Linked HistoryEvent.previousEventHash HistoryEvent.eventHash previous events ∧
        ∀ (i : Nat) e, events[i]? = some e → e.SealedAt fileId (index + i)) ∧
        root = HashChain.tip HistoryEvent.eventHash previous events := by
  -- The position and the hash before it move along with the list.
  induction events generalizing index previous with
  | nil => simp [verifyChainFrom, HashChain.Linked, HashChain.tip, eq_comm]
  | cons e es ih =>
    constructor
    · intro h
      obtain ⟨hplace, h⟩ := else_ok h
      push Not at hplace
      obtain ⟨hseq, hfile, hprev⟩ := hplace
      obtain ⟨hash, hhash, h⟩ := try_ok h
      split at h
      next => cases h
      next heq =>
        rw [not_not] at heq
        subst heq
        obtain ⟨⟨hlinked, hsealed⟩, hroot⟩ := (ih _ _).mp h
        refine ⟨⟨⟨hprev, hlinked⟩, ?_⟩, hroot⟩
        intro i e' he'
        cases i with
        | zero =>
          simp only [getElem?_cons_zero, Option.some.injEq] at he'
          subst he'
          exact ⟨hseq, hfile, hhash⟩
        | succ i =>
          have := hsealed i e' (by simpa using he')
          rwa [Nat.add_assoc, Nat.add_comm 1] at this
    · rintro ⟨⟨⟨hprev, hlinked⟩, hsealed⟩, hroot⟩
      have hhead := hsealed 0 e (by simp)
      have htail : verifyChainFrom fileId (index + 1) e.eventHash es = .ok root := by
        refine (ih _ _).mpr ⟨⟨hlinked, fun i e' he' => ?_⟩, hroot⟩
        have := hsealed (i + 1) e' (by simpa using he')
        rwa [Nat.add_comm i, ← Nat.add_assoc] at this
      unfold verifyChainFrom
      rw [if_neg (by simp [hhead.sequence, hhead.fileId, hprev]), hhead.hash]
      simpa using htail

/-- **What the chain check accepts**, and the root it returns. -/
theorem verifyChain_ok_iff :
    verifyChain fileId events = .ok root ↔ ChainOk fileId events ∧ root = chainTip fileId events := by
  rw [verifyChain, verifyChainFrom_ok_iff]
  simp only [Nat.zero_add, chainTip]
  exact ⟨fun h => ⟨⟨h.1.1, h.1.2⟩, h.2⟩, fun h => ⟨⟨h.1.linked, h.1.sealed⟩, h.2⟩⟩

theorem ChainOk.concat (h : ChainOk fileId events) (hprev : e.previousEventHash = chainTip fileId events)
    (hsealed : e.SealedAt fileId events.length) : ChainOk fileId (events ++ [e]) where
  linked := (HashChain.linked_append _ _ _).mpr ⟨h.linked, hprev, trivial⟩
  sealed := by
    intro i e' he'
    rw [getElem?_append] at he'
    split at he'
    next => exact h.sealed i e' he'
    next hi =>
      obtain ⟨hzero, rfl⟩ : i - events.length = 0 ∧ e = e' := by
        simpa [getElem?_singleton] using he'
      rw [show i = events.length by omega]
      exact hsealed

theorem ChainOk.of_append (h : ChainOk fileId (xs ++ ys)) : ChainOk fileId xs where
  linked := ((HashChain.linked_append _ _ _).mp h.linked).1
  sealed := by
    intro i e he
    refine h.sealed i e ?_
    rw [getElem?_append_left (List.getElem?_eq_some_iff.mp he).1]
    exact he

end Hashes

end KeyQuorum
