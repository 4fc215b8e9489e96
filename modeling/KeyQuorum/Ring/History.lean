/-
  **THE TIMELINE OF A RING** (`ring/history.rs`).

  Every event of a ring is chained to the one before it, exactly as the
  events of a tracked file are, and stored by its number next to the count
  and the hash of the last one.
-/
import KeyQuorum.FileHistory.Event
import Mathlib.Data.List.Sort

namespace KeyQuorum

open List Foundation

/-- A row of `ring_histories` with its `ring_events` rows: the id of the timeline, the event count and
head hash once something was recorded, and the encoded events by their number. -/
structure Timeline where
  id : Id16
  head : Option (Nat × Digest)
  rows : List (Nat × Bytes)

/-- `HistoryEvent::chained`; `eventId` is drawn at random. -/
def HistoryEvent.chained [Crypto] (historyId eventId : Id16) (sequence : UInt64) (previous : Digest)
    (new : NewEvent) : Except Error HistoryEvent :=
  if new.details.unsafeKey.isSome || new.revisionId.isSome then .error .invalidTrackedFile
  else HistoryEvent.sealEvent eventId sequence historyId previous new

/-- `HistoryEvent::from_bytes`: nothing may follow. -/
def HistoryEvent.fromBytes (bytes : Bytes) : Except Error HistoryEvent := do
  let (event, rest) ← HistoryEvent.decode bytes
  if rest.isEmpty then .ok event else .error .invalidTrackedFile

variable {event : HistoryEvent} {bytes : Bytes}

theorem HistoryEvent.fromBytes_encode (h : event.encode = .ok bytes) :
    HistoryEvent.fromBytes bytes = .ok event := by
  have hdecode : HistoryEvent.decode (bytes ++ []) = .ok (event, []) := HistoryEvent.decode_inverts.reads h []
  rw [append_nil] at hdecode
  unfold HistoryEvent.fromBytes
  rw [hdecode]
  rfl

namespace Timeline

variable [Crypto]

/-- `Timeline::id`: derived from which ring it is. -/
def idOf (kind name : String) : Id16 :=
  ⟨(sha256 (utf8Bytes "KQ-RING-HISTORY-v1" ++ (utf8Bytes kind ++ ([0] ++ utf8Bytes name)))).bytes.take 16,
    by rw [length_take, FixedBytes.length_eq]; rfl⟩

def empty (kind name : String) : Timeline := { id := idOf kind name, head := none, rows := [] }

/-- `record`: append one event at the time the store's clock says. -/
def record (t : Timeline) (eventId : Id16) (occurredAt : String) (eventType : HistoryEventType)
    (outcome : HistoryOutcome) (actor : Option String) (details : EventDetails) :
    Except Error Timeline := do
  -- INSERT OR IGNORE: a new timeline starts at its genesis hash
  let (count, head) := t.head.getD (0, genesisHash t.id)
  let event ← HistoryEvent.chained t.id eventId (UInt64.ofNat count) head
    { revisionId := none, occurredAt, actorIdentity := none, actorLabel := actor
      topologyGeneration := none, eventType, outcome, details }
  let bytes ← event.encode
  if t.rows.any fun row => row.1 = count then .error .database
  else .ok { t with head := some (count + 1, event.eventHash), rows := t.rows ++ [(count, bytes)] }

/-- Whether the recorded count and head are those of the events read back. -/
def consistent (t : Timeline) (root : Digest) (events : List HistoryEvent) : Bool :=
  match t.head with
  | some (count, head) => count = events.length && head = root
  | none => events.isEmpty

/-- `snapshot`: the events in order, their chain verified and matching the recorded head. -/
def snapshot (t : Timeline) : Except Error (Digest × List HistoryEvent) := do
  let events ← (t.rows.insertionSort fun a b => a.1 ≤ b.1).mapM fun row => HistoryEvent.fromBytes row.2
  let root ← (verifyChain t.id events).mapError fun _ => .integrityCheckFailed
  if t.consistent root events then .ok (root, events) else .error .integrityCheckFailed

/-! ## §1. What only `record` wrote. -/

def storedFrom : Nat → List HistoryEvent → Except Error (List (Nat × Bytes))
  | _, [] => .ok []
  | n, event :: events => do
      let bytes ← event.encode
      let rest ← storedFrom (n + 1) events
      .ok ((n, bytes) :: rest)

structure Holds (t : Timeline) (events : List HistoryEvent) : Prop where
  chain : ChainOk t.id events
  rows_eq : storedFrom 0 events = .ok t.rows
  head_eq : t.head.getD (0, genesisHash t.id) = (events.length, chainTip t.id events)

theorem holds_empty (kind name : String) : (empty kind name).Holds [] where
  chain := ⟨trivial, fun i e he => absurd he (by simp)⟩
  rows_eq := rfl
  head_eq := rfl

variable {events : List HistoryEvent} {rows : List (Nat × Bytes)}

section

omit [Crypto]

variable {n : Nat} (h : storedFrom n events = .ok rows)

include h

theorem storedFrom_concat (hevent : event.encode = .ok bytes) :
    storedFrom n (events ++ [event]) = .ok (rows ++ [(n + events.length, bytes)]) := by
  induction events generalizing n rows with
  | nil =>
    cases h
    rw [nil_append, storedFrom, hevent]
    rfl
  | cons first rest ih =>
    obtain ⟨firstBytes, hfirst, h⟩ := try_ok h
    obtain ⟨restRows, hrest, h⟩ := try_ok h
    cases h
    rw [cons_append, storedFrom, hfirst, except_ok_bind, ih hrest, except_ok_bind,
      length_cons, Nat.add_right_comm n 1, ← Nat.add_assoc]
    rfl

theorem storedFrom_sorted : rows.Pairwise (fun a b => a.1 ≤ b.1) ∧ ∀ row ∈ rows, n ≤ row.1 := by
  induction events generalizing n rows with
  | nil =>
    cases h
    exact ⟨List.Pairwise.nil, fun row hrow => absurd hrow (by simp)⟩
  | cons first rest ih =>
    obtain ⟨firstBytes, hfirst, h⟩ := try_ok h
    obtain ⟨restRows, hrest, h⟩ := try_ok h
    cases h
    obtain ⟨hsorted, hlarge⟩ := ih hrest
    have hbelow : ∀ row ∈ restRows, n ≤ row.1 := fun row hrow => Nat.le_of_succ_le (hlarge row hrow)
    exact ⟨pairwise_cons.mpr ⟨hbelow, hsorted⟩, forall_mem_cons.mpr ⟨Nat.le_refl n, hbelow⟩⟩

theorem storedFrom_read : (rows.mapM fun row => HistoryEvent.fromBytes row.2) = .ok events := by
  induction events generalizing n rows with
  | nil =>
    cases h
    rfl
  | cons first rest ih =>
    obtain ⟨firstBytes, hfirst, h⟩ := try_ok h
    obtain ⟨restRows, hrest, h⟩ := try_ok h
    cases h
    rw [mapM_cons, HistoryEvent.fromBytes_encode hfirst, except_ok_bind, ih hrest]
    rfl

end

/-! ## §2. The chain always verifies. -/

section Record

variable {t t' : Timeline} {eventId : Id16} {occurredAt : String} {eventType : HistoryEventType}
  {outcome : HistoryOutcome} {actor : Option String} {details : EventDetails} {events : List HistoryEvent}

/-- **A recorded event extends the chain by itself.** -/
theorem Holds.record (h : t.Holds events)
    (hrecord : t.record eventId occurredAt eventType outcome actor details = .ok t') :
    ∃ event, event.eventType = eventType ∧ event.details = details ∧ t'.Holds (events ++ [event]) := by
  unfold Timeline.record at hrecord
  rw [h.head_eq] at hrecord
  obtain ⟨event, hevent, hrecord⟩ := try_ok hrecord
  obtain ⟨bytes, hbytes, hrecord⟩ := try_ok hrecord
  obtain ⟨-, hrecord⟩ := else_ok hrecord
  cases hrecord
  obtain ⟨-, hevent⟩ := else_ok hevent
  obtain ⟨hsealed, hprevious, -, htype, hdetails⟩ := HistoryEvent.sealEvent_ok hevent
  refine ⟨event, htype, hdetails, h.chain.concat hprevious hsealed, ?_, ?_⟩
  · have hstored := storedFrom_concat h.rows_eq hbytes
    rwa [Nat.zero_add] at hstored
  · show (events.length + 1, event.eventHash) = _
    rw [length_append, chainTip, HashChain.tip_append]
    rfl

/-- **A timeline that only `record` wrote verifies.** -/
theorem Holds.snapshot (h : t.Holds events) : t.snapshot = .ok (chainTip t.id events, events) := by
  have hread : ((t.rows.insertionSort fun a b => a.1 ≤ b.1).mapM fun row => HistoryEvent.fromBytes row.2)
      = .ok events := by
    rw [List.Pairwise.insertionSort_eq (storedFrom_sorted h.rows_eq).1]
    exact storedFrom_read h.rows_eq
  have hchain : verifyChain t.id events = .ok (chainTip t.id events) := verifyChain_ok_iff.mpr ⟨h.chain, rfl⟩
  have hconsistent : t.consistent (chainTip t.id events) events := by
    have hhead := h.head_eq
    unfold consistent
    cases hrow : t.head with
    | none =>
      rw [hrow, Option.getD_none] at hhead
      exact isEmpty_iff_length_eq_zero.mpr (congrArg Prod.fst hhead).symm
    | some row =>
      rw [hrow, Option.getD_some] at hhead
      cases hhead
      simp
  unfold Timeline.snapshot
  rw [hread, except_ok_bind, hchain]
  show (if t.consistent _ _ then _ else _) = _
  rw [if_pos hconsistent]

end Record

end Timeline

end KeyQuorum
