/-
  **A TRACKED FILE AND ITS TWO GROWTH STEPS** (`file_history/container.rs`).

  `check_in` adds a revision, `append` an event; every other operation is
  built from these two and from adding proofs.  Methods on `&mut self` are
  `FileOp`s: an error leaves a state behind too.  Random event ids come from
  a parameter `rng`, the draw made for the event at each position.
-/
import KeyQuorum.FileHistory.FilePolicy
import KeyQuorum.FileHistory.Graph
import KeyQuorum.FileHistory.Proof

namespace KeyQuorum

open List Foundation

/-- `TrackedFile`: a file with its revisions, proofs and events. -/
structure TrackedFile where
  fileId : Id16
  logicalName : String
  revisions : List StoredRevision
  proofs : List RevisionProof
  events : List HistoryEvent
  eventProofs : List EventProof
  policy : Option FilePolicy
  deriving DecidableEq, Repr

/-- A method on `&mut TrackedFile`. -/
abbrev FileOp (α : Type) := Op TrackedFile Error α

/-- `destroys_this_content`: a `CONTENT_DESTROYED` that is not about a linked gate. -/
def destroysThisContent (event : HistoryEvent) : Bool :=
  event.eventType = .contentDestroyed && !event.details.entries.any (fun entry => entry.1 = "gate")

namespace TrackedFile

/-! ## §1. Reading. -/

def new (fileId : Id16) (logicalName : String) : TrackedFile where
  fileId := fileId
  logicalName := logicalName
  revisions := []
  proofs := []
  events := []
  eventProofs := []
  policy := none

def withPolicy (fileId : Id16) (logicalName : String) (policy : FilePolicy) : TrackedFile :=
  { new fileId logicalName with policy := some policy }

/-- `graph().get`. -/
def get (f : TrackedFile) (id : Digest) : Option StoredRevision := RevisionGraph.get f.revisions id

/-- `is_destroyed`. -/
def isDestroyed (f : TrackedFile) : Bool := f.events.any destroysThisContent

def proofsFor (f : TrackedFile) (revisionId : Digest) (kind : ProofKind) : List RevisionProof :=
  f.proofs.filter (fun proof => proof.revisionId = revisionId && proof.kind = kind)

variable {id : Digest}

theorem get_isSome {f : TrackedFile} : (f.get id).isSome ↔ id ∈ Dag.keys StoredRevision.id f.revisions :=
  RevisionGraph.get_isSome

def parentsDistinct (parents : List Digest) : Bool :=
  parents.zipIdx.all (fun entry => !(parents.take entry.2).contains entry.1)

theorem parentsDistinct_iff : parentsDistinct parents ↔ parents.Nodup := by
  rw [parentsDistinct, all_eq_true, nodup_iff_getElem?_ne_getElem?]
  constructor
  · intro h i j hij hj heq
    have hlt := getElem?_eq_getElem hj
    have hmem := h (parents[j], j) (mem_zipIdx_iff_getElem?.mpr hlt)
    simp only [Bool.not_eq_eq_eq_not, Bool.not_true, contains_eq_mem, decide_eq_false_iff_not] at hmem
    refine hmem (mem_of_getElem? (i := i) ?_)
    rw [getElem?_take, if_pos hij, heq, hlt]
  · rintro h ⟨p, j⟩ hmem
    have hj : parents[j]? = some p := mem_zipIdx_iff_getElem?.mp hmem
    simp only [Bool.not_eq_eq_eq_not, Bool.not_true, contains_eq_mem, decide_eq_false_iff_not]
    intro htake
    obtain ⟨i, hi⟩ := mem_iff_getElem?.mp htake
    rw [getElem?_take] at hi
    split at hi
    next hij => exact h i j hij (List.getElem?_eq_some_iff.mp hj).1 (hi.trans hj.symm)
    next => cases hi

section Hashes

variable [Crypto]

/-- `history_root`: the last event hash, or the genesis hash. -/
def historyRoot (f : TrackedFile) : Digest :=
  match f.events.getLast? with
  | some event => event.eventHash
  | none => genesisHash f.fileId

/-- `passes_through`: whether this history was once at `root`. -/
def passesThrough (f : TrackedFile) (root : Digest) : Bool :=
  root = genesisHash f.fileId || f.events.any (fun event => event.eventHash = root)

theorem historyRoot_eq_chainTip (f : TrackedFile) :
    f.historyRoot = chainTip f.fileId f.events := by
  rcases eq_nil_or_concat f.events with hnil | ⟨init, last, hlast⟩
  · simp [historyRoot, chainTip, hnil, HashChain.tip]
  · rw [concat_eq_append] at hlast
    simp [historyRoot, chainTip, hlast, HashChain.tip_append, HashChain.tip]

/-! ## §2. Checking in a revision. -/

variable [CharTable] {new : NewRevision}

/-- `check_in`: record a new revision and return its id. -/
def checkIn (new : NewRevision) (payload : Bytes) : FileOp Digest := do
  let file ← Op.read
  Op.require (!file.isDestroyed) .fileExpired
  let parents := new.parentRevisionIds
  let known := parents.all (fun parent => (file.get parent).isSome)
  -- the first revision has no parents, every later one has some
  Op.require (parents.isEmpty = file.revisions.isEmpty && known && parentsDistinct parents)
    .invalidTrackedFile
  let revision ← Op.lift (FileRevision.create file.fileId file.logicalName payload new)
  -- the same edit twice has the same id, and is refused
  Op.require (file.get revision.revisionId).isNone .invalidTrackedFile
  Op.modify (fun f => { f with revisions := f.revisions ++ [⟨revision, some payload⟩] })
  pure revision.revisionId

/-- What a successful `check_in` did. -/
structure CheckedIn (f : TrackedFile) (new : NewRevision) (payload : Bytes) (id : Digest)
    (f' : TrackedFile) (r : FileRevision) : Prop where
  live : f.isDestroyed = false
  parents_empty : new.parentRevisionIds = [] ↔ f.revisions = []
  parents_known : ∀ p ∈ new.parentRevisionIds, p ∈ Dag.keys StoredRevision.id f.revisions
  parents_nodup : new.parentRevisionIds.Nodup
  created : FileRevision.create f.fileId f.logicalName payload new = .ok r
  id_eq : id = r.revisionId
  id_new : id ∉ Dag.keys StoredRevision.id f.revisions
  result : f' = { f with revisions := f.revisions ++ [⟨r, some payload⟩] }

theorem checkIn_ok (h : checkIn new payload f = (.ok id, f')) :
    ∃ r, CheckedIn f new payload id f' r := by
  obtain ⟨hlive, h⟩ := Op.require_bind_ok (Op.read_bind_ok h)
  obtain ⟨hpar, h⟩ := Op.require_bind_ok h
  obtain ⟨r, hcreate, h⟩ := Op.lift_bind_ok h
  obtain ⟨hfresh, h⟩ := Op.require_bind_ok h
  obtain ⟨rfl, hpush⟩ := Op.modify_pure_ok h
  simp only [Bool.and_eq_true, decide_eq_true_eq, all_eq_true] at hpar
  refine ⟨r, ⟨by simpa using hlive, ?_, ?_, parentsDistinct_iff.mp hpar.2, hcreate, rfl, ?_, hpush⟩⟩
  · rw [← List.isEmpty_iff, ← List.isEmpty_iff, hpar.1.1]
  · exact fun p hp => get_isSome.mp (hpar.1.2 p hp)
  · intro hmem
    rw [← get_isSome] at hmem
    rw [Option.isNone_iff_eq_none] at hfresh
    rw [hfresh] at hmem
    cases hmem

theorem checkIn_atomic : Op.Atomic (checkIn new payload) :=
  .read_bind fun _ => .require_bind <| .require_bind <|
    .lift_bind fun _ => .require_bind <| .modify_pure _ _

end Hashes

/-! ## §3. Appending an event. -/

section Append

variable [Crypto] {new : NewEvent} {rng : Nat → Id16} {f : TrackedFile}

/-- `append`: verify the chain, seal the event at its end and push it. -/
def append (rng : Nat → Id16) (new : NewEvent) : FileOp HistoryEvent := do
  let file ← Op.read
  let _ ← Op.lift (verifyChain file.fileId file.events)
  Op.require new.details.unsafeKey.isNone .invalidTrackedFile
  Op.require (new.revisionId.all (fun id => (file.get id).isSome)) .invalidTrackedFile
  let event ← Op.lift (HistoryEvent.sealEvent (rng file.events.length)
    (UInt64.ofNat file.events.length) file.fileId file.historyRoot new)
  Op.modify (fun f => { f with events := f.events ++ [event] })
  pure event

/-- What a successful `append` did. -/
structure Appended (f : TrackedFile) (new : NewEvent) (event : HistoryEvent)
    (f' : TrackedFile) : Prop where
  chain : ChainOk f.fileId f.events
  safe : new.details.unsafeKey = none
  known : ∀ id, new.revisionId = some id → id ∈ Dag.keys StoredRevision.id f.revisions
  sealed : event.SealedAt f.fileId f.events.length
  previous : event.previousEventHash = f.historyRoot
  revisionId : event.revisionId = new.revisionId
  eventType : event.eventType = new.eventType
  details : event.details = new.details
  result : f' = { f with events := f.events ++ [event] }

theorem append_ok (h : append rng new f = (.ok event, f')) : Appended f new event f' := by
  obtain ⟨root, hchain, h⟩ := Op.lift_bind_ok (Op.read_bind_ok h)
  obtain ⟨hsafe, h⟩ := Op.require_bind_ok h
  obtain ⟨hknown, h⟩ := Op.require_bind_ok h
  obtain ⟨e, hseal, h⟩ := Op.lift_bind_ok h
  obtain ⟨rfl, hpush⟩ := Op.modify_pure_ok h
  obtain ⟨hsealed, hprev, hrev, htype, hdet⟩ := HistoryEvent.sealEvent_ok hseal
  refine ⟨(verifyChain_ok_iff.mp hchain).1, by simpa using hsafe, ?_, hsealed, hprev, hrev, htype,
    hdet, hpush⟩
  intro id hid
  rw [hid] at hknown
  exact get_isSome.mp hknown

/-- An event whose texts fit, with safe keys and a known revision, can be appended to any unbroken
chain. -/
theorem append_total (rng : Nat → Id16) (hchain : ChainOk f.fileId f.events)
    (hsafe : new.details.unsafeKey = none)
    (hknown : ∀ id, new.revisionId = some id → id ∈ Dag.keys StoredRevision.id f.revisions)
    (hfits : new.Fits) : ∃ event f', append rng new f = (.ok event, f') := by
  obtain ⟨event, hevent⟩ := HistoryEvent.sealEvent_total hfits
  have hids : new.revisionId.all (fun id => (f.get id).isSome) := by
    cases hid : new.revisionId with
    | none => rfl
    | some id => exact get_isSome.mpr (hknown id hid)
  refine ⟨event, { f with events := f.events ++ [event] }, ?_⟩
  rw [append, Op.read_bind, Op.lift_bind (verifyChain_ok_iff.mpr ⟨hchain, rfl⟩),
    Op.require_bind (by simp [hsafe]), Op.require_bind hids, Op.lift_bind hevent]
  rfl

theorem append_atomic : Op.Atomic (append rng new) :=
  .read_bind fun _ => .lift_bind fun _ => .require_bind <|
    .require_bind <| .lift_bind fun _ => .modify_pure _ _

end Append

end TrackedFile

end KeyQuorum
