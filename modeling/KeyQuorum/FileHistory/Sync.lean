/-
  **IMPORTING ANOTHER COPY** (`merge_history` in `file_history/sync.rs`).

  Revisions and proofs are unioned: nothing held is rewritten, a fork is kept
  as two heads, and the import is refused whole unless both copies verify and
  are the same file under the same policy.
-/
import KeyQuorum.FileHistory.Growth

namespace KeyQuorum

open List Foundation

/-- `HistoryRelation`, by revisions. -/
inductive HistoryRelation where
  | identical
  | localAhead
  | remoteAhead
  | diverged
  deriving DecidableEq, Repr

/-- The `Debug` text of a relation, recorded in the import event. -/
def HistoryRelation.debug : HistoryRelation → String
  | .identical => "Identical"
  | .localAhead => "LocalAhead"
  | .remoteAhead => "RemoteAhead"
  | .diverged => "Diverged"

/-- `HistoryMerge`: what an import reports. -/
structure HistoryMerge where
  relation : HistoryRelation
  revisionsAdded : Nat
  proofsAdded : Nat
  deriving DecidableEq, Repr

/-- `ImportContext`: who imports, and when. -/
structure ImportContext where
  actorIdentity : Option Id16
  actorLabel : String
  occurredAt : String
  topologyGeneration : UInt64
  deriving DecidableEq, Repr

namespace TrackedFile

/-! ## §1. The two passes. -/

/-- `local.get(id)`: the map is collected in storage order, so the last revision under an id. -/
def heldRevision (revisions : List StoredRevision) (id : Digest) : Option StoredRevision :=
  revisions.reverse.find? (fun stored => stored.id = id)

def historyRelation (mine theirs : List StoredRevision) : HistoryRelation :=
  let theirsNew := (theirs.filter (fun stored => (heldRevision mine stored.id).isNone)).length
  let mineNew := (mine.filter (fun stored =>
    !(theirs.map StoredRevision.id).contains stored.id)).length
  match mineNew, theirsNew with
  | 0, 0 => .identical
  | _, 0 => .localAhead
  | 0, _ => .remoteAhead
  | _, _ => .diverged

/-- The revisions to add, refused when a held one differs from the one offered under its id. -/
def incomingRevisions (mine : List StoredRevision) :
    List StoredRevision → Except Error (List StoredRevision)
  | [] => .ok []
  | stored :: rest =>
    match heldRevision mine stored.id with
    | some existing =>
      if existing = stored then incomingRevisions mine rest else .error .invalidTrackedFile
    | none => do
        let more ← incomingRevisions mine rest
        .ok (stored :: more)

def incomingProofs (mine theirs : List RevisionProof) : List RevisionProof :=
  Slots.admitted RevisionProof.slot RevisionProof.signature maxProofsPerSlot
    (Slots.tagsIn RevisionProof.slot RevisionProof.signature mine) theirs

def addImported (revisions : List StoredRevision) (proofs : List RevisionProof)
    (f : TrackedFile) : TrackedFile :=
  { f with revisions := f.revisions ++ revisions, proofs := f.proofs ++ proofs }

variable {id : Digest}

theorem heldRevision_some {revisions : List StoredRevision} {stored : StoredRevision}
    (h : heldRevision revisions id = some stored) : stored ∈ revisions ∧ stored.id = id :=
  ⟨mem_reverse.mp (mem_of_find?_eq_some h), by simpa using List.find?_some h⟩

theorem heldRevision_isNone {revisions : List StoredRevision} :
    (heldRevision revisions id).isNone = true ↔ id ∉ Dag.keys StoredRevision.id revisions := by
  simp [heldRevision, Dag.keys]

/-- **The pass over their revisions**: every id held here is held with the same revision, and the
others are added in their order. -/
theorem incomingRevisions_ok_iff :
    incomingRevisions mine theirs = .ok incoming ↔
      (∀ stored ∈ theirs, ∀ existing, heldRevision mine stored.id = some existing → existing = stored)
        ∧ incoming = theirs.filter (fun stored => (heldRevision mine stored.id).isNone) := by
  induction theirs generalizing incoming with
  | nil => simp [incomingRevisions, eq_comm]
  | cons stored rest ih =>
    unfold incomingRevisions
    cases hheld : heldRevision mine stored.id with
    | some existing =>
      by_cases heq : existing = stored
      · simp [heq, ih, hheld]
      · simp [heq, hheld]
    | none =>
      simp only [forall_mem_cons, hheld, reduceCtorEq, false_implies, implies_true,
        true_and, Option.isNone_none, filter_cons_of_pos]
      constructor
      · intro h
        obtain ⟨more, hmore, h⟩ := try_ok h
        obtain ⟨hagree, rfl⟩ := ih.mp hmore
        exact ⟨hagree, (Except.ok.inj h).symm⟩
      · rintro ⟨hagree, rfl⟩
        rw [ih.mpr ⟨hagree, rfl⟩]
        rfl

/-! ## §2. `merge_history`. -/

/-- `HISTORY_IMPORTED`. -/
def importEvent (context : ImportContext) (fromRoot : Digest) (result : HistoryMerge) :
    NewEvent where
  revisionId := none
  occurredAt := context.occurredAt
  actorIdentity := context.actorIdentity
  actorLabel := some context.actorLabel
  topologyGeneration := some context.topologyGeneration
  eventType := .historyImported
  outcome := .success
  details := (((EventDetails.new.withDetail "from_history_root"
    (hexEncode fromRoot.bytes)).withDetail "relation" result.relation.debug).withDetail
    "revisions_added" (toString (result.revisionsAdded % 2 ^ 64))).withDetail
    "proofs_added" (toString (result.proofsAdded % 2 ^ 64))

section Importing

variable [Crypto]

def recordImport (rng : Nat → Id16) (context : ImportContext) (fromRoot : Digest)
    (result : HistoryMerge) : FileOp HistoryMerge :=
  if result.revisionsAdded > 0 || result.proofsAdded > 0 then do
    let _ ← append rng (importEvent context fromRoot result)
    pure result
  else pure result

variable [CharTable]

section

variable (rng : Nat → Id16) (other : TrackedFile) (context : ImportContext)

def mergeHistorySteps : FileOp HistoryMerge := do
  let file ← Op.read
  let incoming ← Op.lift (incomingRevisions file.revisions other.revisions)
  let proofs := incomingProofs file.proofs other.proofs
  -- from here on an error has something to undo
  Op.modify (addImported incoming proofs)
  let merged ← Op.read
  let _ ← Op.lift (verifyStructure merged)
  recordImport rng context other.historyRoot
    ⟨historyRelation file.revisions other.revisions, incoming.length, proofs.length⟩

/-- `merge_history`: refused unless both copies are live, verify, and are the same file under the
same policy. -/
def mergeHistory : FileOp HistoryMerge := do
  let file ← Op.read
  Op.require (!(file.fileId ≠ other.fileId || file.policy ≠ other.policy)) .invalidTrackedFile
  Op.require (!(file.isDestroyed || other.isDestroyed)) .fileExpired
  let _ ← Op.lift (verifyStructure file)
  let _ ← Op.lift (verifyStructure other)
  atomically (mergeHistorySteps rng other context)

end

structure Importable (f other : TrackedFile) : Prop where
  fileId : f.fileId = other.fileId
  policy : f.policy = other.policy
  live : f.isDestroyed = false
  otherLive : other.isDestroyed = false
  wellFormed : WellFormed f
  otherWellFormed : WellFormed other

/-- The revisions `other` has and `f` lacks, in `other`'s order. -/
def newRevisions (f other : TrackedFile) : List StoredRevision :=
  other.revisions.filter (fun stored => (heldRevision f.revisions stored.id).isNone)

def united (f other : TrackedFile) : TrackedFile :=
  addImported (f.newRevisions other) (incomingProofs f.proofs other.proofs) f

def importResult (f other : TrackedFile) : HistoryMerge where
  relation := historyRelation f.revisions other.revisions
  revisionsAdded := (f.newRevisions other).length
  proofsAdded := (incomingProofs f.proofs other.proofs).length

/-- **Everything a successful import did.** -/
structure Imported (f other : TrackedFile) (result : HistoryMerge) (f' : TrackedFile) : Prop where
  importable : Importable f other
  agree : ∀ stored ∈ other.revisions, ∀ existing,
    heldRevision f.revisions stored.id = some existing → existing = stored
  united : WellFormed (f.united other)
  reported : result = f.importResult other
  event : (result.revisionsAdded = 0 ∧ result.proofsAdded = 0 ∧ f' = f)
    ∨ ∃ context event, ¬ (result.revisionsAdded = 0 ∧ result.proofsAdded = 0)
      ∧ Appended (f.united other) (importEvent context other.historyRoot result) event f'

omit [Crypto] [CharTable] in
theorem addImported_extends {revisions : List StoredRevision} {proofs : List RevisionProof} :
    Extends f (addImported revisions proofs f) :=
  ⟨rfl, rfl, rfl, prefix_append _ _, prefix_append _ _, prefix_rfl, prefix_rfl⟩

omit [CharTable] in
theorem recordImport_extends (rng : Nat → Id16) (context : ImportContext) (fromRoot : Digest)
    (result : HistoryMerge) : Op.Moves Extends (recordImport rng context fromRoot result) := by
  unfold recordImport
  split
  · exact append_extends.bind fun _ => .pure result
  · exact .pure result

theorem mergeHistorySteps_extends (rng : Nat → Id16) (other : TrackedFile)
    (context : ImportContext) : Op.Moves Extends (mergeHistorySteps rng other context) :=
  .read_bind fun _ => .lift_bind fun _ =>
    .bind (fun _ => addImported_extends) fun _ =>
    .read_bind fun _ => .lift_bind fun _ => recordImport_extends rng context _ _

variable {rng : Nat → Id16}

/-- **A refused import changes nothing.** -/
theorem mergeHistory_atomic : Op.Atomic (mergeHistory rng other context) :=
  .read_bind fun _ => .require_bind <| .require_bind <| .lift_bind fun _ => .lift_bind fun _ =>
    atomically_atomic (mergeHistorySteps_extends rng other context)

variable {f other : TrackedFile} {context : ImportContext} {result : HistoryMerge}

omit [Crypto] [CharTable] in
theorem united_of_nothing_new (hrevisions : f.newRevisions other = [])
    (hproofs : incomingProofs f.proofs other.proofs = []) : f.united other = f := by
  rw [united, hrevisions, hproofs, addImported, append_nil, append_nil]

omit [CharTable] in
theorem recordImport_ok (h : recordImport rng context fromRoot result f = (.ok r, f')) :
    r = result ∧ ((result.revisionsAdded = 0 ∧ result.proofsAdded = 0 ∧ f' = f)
      ∨ ∃ event, ¬ (result.revisionsAdded = 0 ∧ result.proofsAdded = 0)
        ∧ Appended f (importEvent context fromRoot result) event f') := by
  unfold recordImport at h
  by_cases hnew : (decide (result.revisionsAdded > 0) || decide (result.proofsAdded > 0)) = true
  · rw [if_pos hnew] at h
    obtain ⟨event, mid, happ, h⟩ := Op.bind_ok h
    obtain ⟨rfl, rfl⟩ := Op.pure_ok h
    refine ⟨rfl, .inr ⟨event, ?_, append_ok happ⟩⟩
    rintro ⟨hrev, hpro⟩
    simp [hrev, hpro] at hnew
  · rw [if_neg hnew] at h
    obtain ⟨rfl, rfl⟩ := Op.pure_ok h
    refine ⟨rfl, .inl ?_⟩
    simpa [Bool.or_eq_true] using hnew

/-- **A successful import** did everything `Imported` lists. -/
theorem mergeHistory_ok (h : mergeHistory rng other context f = (.ok result, f')) :
    Imported f other result f' := by
  obtain ⟨hsame, k₁⟩ := Op.require_bind_ok (Op.read_bind_ok h)
  obtain ⟨hlive, k₂⟩ := Op.require_bind_ok k₁
  obtain ⟨_, hmine, k₃⟩ := Op.lift_bind_ok k₂
  obtain ⟨_, htheirs, k₄⟩ := Op.lift_bind_ok k₃
  obtain ⟨incoming, hincoming, k₅⟩ := Op.lift_bind_ok (Op.read_bind_ok (Op.rollback_ok k₄))
  rw [Op.modify_bind] at k₅
  obtain ⟨_, hunited, k₆⟩ := Op.lift_bind_ok (Op.read_bind_ok k₅)
  obtain ⟨rfl, hevent⟩ := recordImport_ok k₆
  obtain ⟨hagree, rfl⟩ := incomingRevisions_ok_iff.mp hincoming
  simp only [ne_eq, Bool.not_eq_eq_eq_not, Bool.not_true, Bool.or_eq_false_iff,
    decide_eq_false_iff_not, not_not] at hsame hlive
  refine ⟨⟨hsame.1, hsame.2, hlive.1, hlive.2, (verifyStructure_ok_iff.mp hmine).1,
    (verifyStructure_ok_iff.mp htheirs).1⟩, hagree, (verifyStructure_ok_iff.mp hunited).1, rfl,
    ?_⟩
  rcases hevent with ⟨hrev, hpro, rfl⟩ | ⟨event, hnew, happ⟩
  · refine .inl ⟨hrev, hpro, ?_⟩
    exact united_of_nothing_new (length_eq_zero_iff.mp hrev) (length_eq_zero_iff.mp hpro)
  · exact .inr ⟨context, event, hnew, happ⟩

omit [CharTable] in
theorem recordImport_total (rng : Nat → Id16) (hchain : ChainOk f.fileId f.events)
    (hfits : ¬ (result.revisionsAdded = 0 ∧ result.proofsAdded = 0) →
      (importEvent context fromRoot result).Fits) :
    ∃ f', recordImport rng context fromRoot result f = (.ok result, f') := by
  unfold recordImport
  by_cases hnew : (decide (result.revisionsAdded > 0) || decide (result.proofsAdded > 0)) = true
  · rw [if_pos hnew]
    have hsome : ¬ (result.revisionsAdded = 0 ∧ result.proofsAdded = 0) := by
      rintro ⟨hrev, hpro⟩
      simp [hrev, hpro] at hnew
    obtain ⟨event, f', happ⟩ :=
      append_total rng hchain rfl (by simp [importEvent]) (hfits hsome)
    exact ⟨f', Op.bind_of_ok happ⟩
  · rw [if_neg hnew]
    exact ⟨f, rfl⟩

/-- An import succeeds when the copies agree on the ids both hold and their union is well
formed. -/
theorem mergeHistory_total (rng : Nat → Id16) (context : ImportContext) (h : Importable f other)
    (hagree : ∀ stored ∈ other.revisions, ∀ existing,
      heldRevision f.revisions stored.id = some existing → existing = stored)
    (hunited : WellFormed (f.united other))
    (hfits : ¬ ((f.importResult other).revisionsAdded = 0 ∧ (f.importResult other).proofsAdded = 0) →
      (importEvent context other.historyRoot (f.importResult other)).Fits) :
    ∃ f', mergeHistory rng other context f = (.ok (f.importResult other), f') := by
  obtain ⟨f', hrecord⟩ := recordImport_total rng hunited.chain hfits
  refine ⟨f', ?_⟩
  rw [mergeHistory, Op.read_bind, Op.require_bind (by simp [h.fileId, h.policy]),
    Op.require_bind (by simp [h.live, h.otherLive]),
    Op.lift_bind (verifyStructure_ok_iff.mpr ⟨h.wellFormed, rfl⟩),
    Op.lift_bind (verifyStructure_ok_iff.mpr ⟨h.otherWellFormed, rfl⟩)]
  refine Op.rollback_of_ok ?_
  have hincoming : incomingRevisions f.revisions other.revisions = .ok (f.newRevisions other) :=
    incomingRevisions_ok_iff.mpr ⟨hagree, rfl⟩
  have hverify : verifyStructure (addImported (f.newRevisions other)
      (incomingProofs f.proofs other.proofs) f) = .ok _ := verifyStructure_ok_iff.mpr ⟨hunited, rfl⟩
  rw [mergeHistorySteps, Op.read_bind, Op.lift_bind hincoming, Op.modify_bind, Op.read_bind,
    Op.lift_bind hverify]
  exact hrecord

/-! ## §3. The imported file. -/

section Imported

variable {f f' : TrackedFile} (h : Imported f other result f')

include h

theorem Imported.revisions : f'.revisions = f.revisions ++ f.newRevisions other := by
  rcases h.event with ⟨hrev, -, rfl⟩ | ⟨_, _, -, happ⟩
  · rw [h.reported, importResult, length_eq_zero_iff] at hrev
    rw [hrev, append_nil]
  · rw [happ.result]
    rfl

theorem Imported.proofs : f'.proofs = f.proofs ++ incomingProofs f.proofs other.proofs := by
  rcases h.event with ⟨-, hpro, rfl⟩ | ⟨_, _, -, happ⟩
  · rw [h.reported, importResult, length_eq_zero_iff] at hpro
    rw [hpro, append_nil]
  · rw [happ.result]
    rfl

theorem Imported.extend : Extends f f' := by
  rcases h.event with ⟨-, -, rfl⟩ | ⟨_, _, -, happ⟩
  · exact Std.Refl.refl f'
  · exact IsTrans.trans _ _ _ addImported_extends happ.extends

theorem Imported.wellFormed : WellFormed f' := by
  rcases h.event with ⟨-, -, rfl⟩ | ⟨_, _, -, happ⟩
  · exact h.importable.wellFormed
  · refine appended_wellFormed h.united happ ?_
    rw [happ.destroys]
    exact fun hfalse => absurd hfalse (by simp [importEvent, NewEvent.destroysContent])

end Imported

end Importing

end TrackedFile

end KeyQuorum
