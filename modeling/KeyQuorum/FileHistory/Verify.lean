/-
  **STRUCTURAL VERIFICATION** (`file_history/verify.rs`).

  `verifyStructure` runs the source's passes in order.  `WellFormed` says
  what a file must satisfy, with no loop in sight, and
  `verifyStructure_ok_iff` is the bridge every later module uses: the check
  accepts exactly the well-formed files and returns their history root.
-/
import KeyQuorum.FileHistory.TrackedFile
import Mathlib.Data.List.Dedup

namespace KeyQuorum

open List Foundation

/-! ## §1. Well-formed parts. -/

/-- The match of `verify_structure` on a proof's kind. -/
def proofWellFormed (proof : RevisionProof) (revision : FileRevision) : Bool :=
  match proof.kind with
  | .content =>
    proof.authorSignatureHash.isNone && proof.signerLabel = revision.authorHcpLabel
      && some proof.signerIdentity = revision.authorIdentity
  | .countersignature => proof.authorSignatureHash.isSome
  | .finalization => proof.authorSignatureHash.isNone
  | .coAuthor =>
    proof.authorSignatureHash.isSome && proof.signerLabel ≠ revision.authorHcpLabel
      && some proof.signerIdentity ≠ revision.authorIdentity

/-- An event proof names an existing event and is by that event's own actor. -/
def eventProofWellFormed (events : List HistoryEvent) (proof : EventProof) : Bool :=
  match events[proof.sequence.toNat]? with
  | some event =>
    event.actorLabel = some proof.signerLabel && event.actorIdentity = some proof.signerIdentity
  | none => false

def OneRoot : List StoredRevision → Prop
  | [] => True
  | root :: rest => root.parents = [] ∧ ∀ stored ∈ rest, stored.parents ≠ []

/-! ## §2. The passes over proofs and event proofs. -/

def checkProofs (revisions : List StoredRevision) :
    (Slot → List Signature) → List RevisionProof → Except Error Unit
  | _, [] => .ok ()
  | slots, proof :: rest =>
    match (RevisionGraph.indexOf revisions proof.revisionId).bind (fun i => revisions[i]?) with
    | none => .error .invalidTrackedFile
    | some stored =>
      if !proofWellFormed proof stored.revision
          || !Slots.fits RevisionProof.slot RevisionProof.signature maxProofsPerSlot slots proof
      then .error .invalidTrackedFile
      else checkProofs revisions (Slots.push slots proof.slot proof.signature) rest

variable {revisions l : List StoredRevision} {id : Digest}

section

variable (hinj : ∀ a ∈ revisions, ∀ b ∈ revisions, a.id = b.id → a = b)

include hinj

theorem lookup_eq_some :
    (RevisionGraph.indexOf revisions id).bind (fun i => revisions[i]?) = some stored ↔
      stored ∈ revisions ∧ stored.id = id := by
  constructor
  · intro h
    obtain ⟨i, hi, hget⟩ := Option.bind_eq_some_iff.mp h
    obtain ⟨other, hother, hid⟩ := RevisionGraph.indexOf_some hi
    rw [hget, Option.some.injEq] at hother
    subst hother
    exact ⟨mem_of_getElem? hget, hid⟩
  · rintro ⟨hmem, hid⟩
    have hsome : (RevisionGraph.indexOf revisions id).isSome :=
      RevisionGraph.indexOf_isSome.mpr ⟨stored, hmem, hid⟩
    obtain ⟨i, hi⟩ := Option.isSome_iff_exists.mp hsome
    obtain ⟨other, hother, hid'⟩ := RevisionGraph.indexOf_some hi
    rw [hi, Option.bind_some, hother,
      hinj other (mem_of_getElem? hother) stored hmem (hid'.trans hid.symm)]

theorem checkProofs_ok_iff {held : Slot → List Signature} {l : List RevisionProof} {u : Unit} :
    checkProofs revisions held l = .ok u ↔ (∀ p ∈ l, ∃ stored ∈ revisions, stored.id = p.revisionId ∧
        proofWellFormed p stored.revision) ∧
      Slots.check RevisionProof.slot RevisionProof.signature maxProofsPerSlot held l := by
  induction l generalizing held with
  | nil => simp [checkProofs, Slots.check]
  | cons p l ih =>
    unfold checkProofs Slots.check
    rw [Bool.and_eq_true]
    constructor
    · intro h
      split at h
      next => cases h
      next stored hlook =>
        obtain ⟨hmem, hid⟩ := (lookup_eq_some hinj).mp hlook
        obtain ⟨hok, h⟩ := else_ok h
        simp only [Bool.or_eq_true, Bool.not_eq_eq_eq_not, Bool.not_true, not_or,
          Bool.not_eq_false] at hok
        obtain ⟨hrest, hcheck⟩ := ih.mp h
        refine ⟨?_, hok.2, hcheck⟩
        intro q hq
        rcases mem_cons.mp hq with rfl | hq
        · exact ⟨stored, hmem, hid, hok.1⟩
        · exact hrest q hq
    · rintro ⟨hall, hfit, hcheck⟩
      obtain ⟨stored, hmem, hid, hwf⟩ := hall p (.head _)
      rw [(lookup_eq_some hinj).mpr ⟨hmem, hid⟩]
      simp only [hwf, hfit, Bool.not_true, Bool.or_self, Bool.false_eq_true, if_false]
      exact ih.mpr ⟨fun q hq => hall q (.tail _ hq), hcheck⟩

end

/-- Fifth pass: the event proofs, with the (sequence, signer) pairs seen so far. -/
def checkEventProofs (events : List HistoryEvent) :
    List (UInt64 × String) → List EventProof → Except Error Unit
  | _, [] => .ok ()
  | signed, proof :: rest =>
    if !(eventProofWellFormed events proof && !signed.contains (proof.sequence, proof.signerLabel))
    then .error .invalidTrackedFile
    else checkEventProofs events (signed ++ [(proof.sequence, proof.signerLabel)]) rest

theorem checkEventProofs_ok_iff {events : List HistoryEvent} {signed : List (UInt64 × String)}
    {l : List EventProof} {u : Unit} :
    checkEventProofs events signed l = .ok u ↔ (∀ p ∈ l, eventProofWellFormed events p) ∧
      (∀ p ∈ l, (p.sequence, p.signerLabel) ∉ signed) ∧
      (l.map (fun p => (p.sequence, p.signerLabel))).Nodup := by
  induction l generalizing signed with
  | nil => simp [checkEventProofs]
  | cons p l ih =>
    unfold checkEventProofs
    rw [map_cons, nodup_cons]
    constructor
    · intro h
      obtain ⟨hok, h⟩ := else_ok h
      simp only [Bool.not_eq_eq_eq_not, Bool.not_true, Bool.not_eq_false, Bool.and_eq_true,
        contains_eq_mem, decide_eq_false_iff_not] at hok
      obtain ⟨hwf, hnew, hnodup⟩ := ih.mp h
      refine ⟨?_, ?_, ?_, hnodup⟩
      · intro q hq
        rcases mem_cons.mp hq with rfl | hq
        · exact hok.1
        · exact hwf q hq
      · intro q hq
        rcases mem_cons.mp hq with rfl | hq
        · exact hok.2
        · exact fun hmem => hnew q hq (mem_append_left _ hmem)
      · intro hmem
        obtain ⟨q, hq, heq⟩ := mem_map.mp hmem
        exact hnew q hq (heq ▸ mem_concat_self)
    · rintro ⟨hwf, hnew, hfresh, hnodup⟩
      have hp : (p.sequence, p.signerLabel) ∉ signed := hnew p (.head _)
      rw [if_neg (by simp [hwf p (.head _), hp])]
      refine ih.mpr ⟨fun q hq => hwf q (.tail _ hq), ?_, hnodup⟩
      intro q hq hmem
      rcases mem_append.mp hmem with hmem | hmem
      · exact hnew q (.tail _ hq) hmem
      · exact hfresh (mem_singleton.mp hmem ▸ mem_map.mpr ⟨q, hq, rfl⟩)

theorem empty_slots : (fun _ => [] : Slot → List Signature)
    = Slots.tagsIn RevisionProof.slot RevisionProof.signature [] := rfl

theorem dedup_length_iff {l : List Digest} : l.dedup.length = l.length ↔ l.Nodup := by
  constructor
  · intro h
    rw [← (dedup_sublist l).eq_of_length h]
    exact nodup_dedup l
  · exact fun h => by rw [List.Nodup.dedup h]

def RootedFrom (index : Nat) : List StoredRevision → Prop
  | [] => True
  | stored :: rest => (index = 0 ↔ stored.parents = []) ∧ RootedFrom (index + 1) rest

theorem rootedFrom_succ : RootedFrom (index + 1) l ↔ ∀ stored ∈ l, stored.parents ≠ [] := by
  induction l generalizing index with
  | nil => simp [RootedFrom]
  | cons s l ih => simp [RootedFrom, ih]

theorem rootedFrom_zero : RootedFrom 0 l ↔ OneRoot l := by
  cases l with
  | nil => exact .rfl
  | cons s l => simp [RootedFrom, OneRoot, rootedFrom_succ]

theorem payload_rule :
    ¬ (((destroyed && revisions.any (fun stored => stored.payload.isSome)) ||
        (!destroyed && !revisions.all (fun stored => stored.payload.isSome)))) ↔
      (destroyed → ∀ stored ∈ revisions, stored.payload = none) ∧
        (destroyed = false → ∀ stored ∈ revisions, stored.payload.isSome) := by
  cases destroyed <;> simp [Option.isSome_iff_ne_none]

section Verify

variable [Crypto] [CharTable] {seen : List Digest} {f : TrackedFile} {fileId : Id16} {index : Nat}

/-! ## §3. Well-formed files. -/

structure RevisionOk (fileId : Id16) (stored : StoredRevision) : Prop where
  file : stored.revision.fileId = fileId
  id : stored.revision.computeId = .ok stored.revision.revisionId
  label : stored.revision.generatedLabelIsConsistent = true
  parents : stored.parents.Nodup
  commitment : ∀ payload, stored.payload = some payload →
    stored.revision.contentCommitment = contentCommitment fileId payload

/-- **A well-formed file.** -/
structure WellFormed (f : TrackedFile) : Prop where
  revisionOk : ∀ stored ∈ f.revisions, RevisionOk f.fileId stored
  parentsFirst : Dag.ParentsFirst StoredRevision.id StoredRevision.parents ∅ f.revisions
  oneRoot : OneRoot f.revisions
  proofOk : ∀ p ∈ f.proofs, ∃ stored ∈ f.revisions, stored.id = p.revisionId ∧
    proofWellFormed p stored.revision = true
  slots : Slots.Ok RevisionProof.slot RevisionProof.signature maxProofsPerSlot f.proofs
  gone : f.isDestroyed = true → ∀ stored ∈ f.revisions, stored.payload = none
  kept : f.isDestroyed = false → ∀ stored ∈ f.revisions, stored.payload.isSome = true
  eventRevision : ∀ e ∈ f.events, ∀ id, e.revisionId = some id →
    id ∈ Dag.keys StoredRevision.id f.revisions
  eventProofOk : ∀ p ∈ f.eventProofs, eventProofWellFormed f.events p = true
  eventProofNodup : (f.eventProofs.map (fun p => (p.sequence, p.signerLabel))).Nodup
  chain : ChainOk f.fileId f.events

/-! ## §4. The check. -/

/-- The conjunction one revision must pass, given the id it recomputes to. -/
def revisionChecks (fileId : Id16) (index : Nat) (seen : List Digest) (stored : StoredRevision)
    (id : Digest) : Bool :=
  let parents := stored.revision.parentRevisionIds
  id = stored.revision.revisionId && stored.revision.generatedLabelIsConsistent
    && !seen.contains stored.revision.revisionId
    && parents.all (fun parent => seen.contains parent)
    && parents.dedup.length = parents.length
    && (index = 0 : Bool) = parents.isEmpty
    && stored.payload.all (fun payload =>
      stored.revision.contentCommitment = contentCommitment fileId payload)

/-- First pass: the revisions, in storage order, with the ids seen so far. -/
def checkRevisions (fileId : Id16) : Nat → List Digest → List StoredRevision → Except Error (List Digest)
  | _, seen, [] => .ok seen
  | index, seen, stored :: rest =>
    -- a foreign file id stops the conjunction before the id is recomputed, which can fail itself
    if stored.revision.fileId ≠ fileId then .error .invalidTrackedFile
    else do
      let id ← stored.revision.computeId
      if !revisionChecks fileId index seen stored id then .error .invalidTrackedFile
      else checkRevisions fileId (index + 1) (seen ++ [stored.revision.revisionId]) rest

/-- `verify_structure`: the passes in order; returns the history root. -/
def verifyStructure (file : TrackedFile) : Except Error Digest := do
  let seen ← checkRevisions file.fileId 0 [] file.revisions
  checkProofs file.revisions (fun _ => []) file.proofs
  -- third pass: every payload is there, or the content was destroyed and none is
  if (file.isDestroyed && file.revisions.any (fun stored => stored.payload.isSome))
      || (!file.isDestroyed && !file.revisions.all (fun stored => stored.payload.isSome)) then
    .error .invalidTrackedFile
  -- fourth pass: events name stored revisions only
  else if (file.events.filterMap HistoryEvent.revisionId).any (fun id => !seen.contains id) then
    .error .invalidTrackedFile
  else do
    checkEventProofs file.events [] file.eventProofs
    verifyChain file.fileId file.events

def verifyTrackedFile (file : TrackedFile) : Except Error Digest := verifyStructure file

theorem revisionChecks_iff :
    revisionChecks fileId index seen stored id ↔
      id = stored.revision.revisionId ∧ stored.revision.generatedLabelIsConsistent ∧
        stored.id ∉ seen ∧ (∀ p ∈ stored.parents, p ∈ seen) ∧ stored.parents.Nodup ∧
        (index = 0 ↔ stored.parents = []) ∧
        ∀ payload, stored.payload = some payload →
          stored.revision.contentCommitment = contentCommitment fileId payload := by
  have hempty : (decide (index = 0) : Bool) = stored.parents.isEmpty ↔
      (index = 0 ↔ stored.parents = []) := by
    rw [Bool.eq_iff_iff, decide_eq_true_iff, List.isEmpty_iff]
  have hpay : stored.payload.all (fun payload =>
      decide (stored.revision.contentCommitment = contentCommitment fileId payload)) ↔
      ∀ payload, stored.payload = some payload →
        stored.revision.contentCommitment = contentCommitment fileId payload := by
    cases stored.payload <;> simp
  rw [← hempty, ← hpay, ← dedup_length_iff]
  simp only [revisionChecks, StoredRevision.parents, StoredRevision.id, Bool.and_eq_true,
    decide_eq_true_eq, Bool.not_eq_eq_eq_not, Bool.not_true, contains_eq_mem,
    decide_eq_false_iff_not, all_eq_true, and_assoc]

theorem checkRevisions_ok_iff :
    checkRevisions fileId index seen l = .ok seen' ↔ ((∀ stored ∈ l, RevisionOk fileId stored) ∧
        Dag.ParentsFirst StoredRevision.id StoredRevision.parents {x | x ∈ seen} l ∧
        RootedFrom index l) ∧ seen' = seen ++ l.map StoredRevision.id := by
  -- `seen` is at once the set of ids taken and the set of ids that may be named as parents.
  induction l generalizing index seen with
  | nil => simp [checkRevisions, Dag.ParentsFirst, RootedFrom, eq_comm]
  | cons s l ih =>
    have hset : insert (StoredRevision.id s) {x | x ∈ seen}
        = {x | x ∈ seen ++ [s.revision.revisionId]} := by
      ext x
      simp [StoredRevision.id, or_comm]
    have hlist : seen ++ (s :: l).map StoredRevision.id
        = (seen ++ [s.revision.revisionId]) ++ l.map StoredRevision.id := by
      simp [StoredRevision.id]
    constructor
    · intro h
      obtain ⟨hfile, h⟩ := else_ok h
      obtain ⟨id, hid, h⟩ := try_ok h
      obtain ⟨hok, h⟩ := else_ok h
      obtain ⟨⟨hrest, hpf, hroot⟩, hseen⟩ := ih.mp h
      rw [Bool.not_eq_true, Bool.not_eq_false', revisionChecks_iff] at hok
      obtain ⟨hself, hlabel, hnew, hpar, hdist, hidx, hpay⟩ := hok
      refine ⟨⟨?_, ⟨hnew, hpar, hset ▸ hpf⟩, hidx, hroot⟩, hlist ▸ hseen⟩
      intro t ht
      rcases mem_cons.mp ht with rfl | ht
      · exact ⟨by simpa using hfile, hself ▸ hid, hlabel, hdist, hpay⟩
      · exact hrest t ht
    · rintro ⟨⟨hall, ⟨hnew, hpar, hpf⟩, hidx, hroot⟩, hseen⟩
      have hs := hall s (.head _)
      have hok : revisionChecks fileId index seen s s.revision.revisionId :=
        revisionChecks_iff.mpr ⟨rfl, hs.label, hnew, hpar, hs.parents, hidx, hs.commitment⟩
      unfold checkRevisions
      rw [if_neg (by simpa using hs.file), hs.id, except_ok_bind, hok]
      refine ih.mpr ⟨⟨fun t ht => hall t (.tail _ ht), hset ▸ hpf, hroot⟩, ?_⟩
      rw [hseen, hlist]

/-- **The check accepts exactly the well-formed files**, and returns their history root. -/
theorem verifyStructure_ok_iff {root : Digest} :
    verifyStructure f = .ok root ↔ WellFormed f ∧ root = f.historyRoot := by
  have hevents : ¬ ((f.events.filterMap HistoryEvent.revisionId).any
      (fun id => !(([] : List Digest) ++ f.revisions.map StoredRevision.id).contains id)) ↔
      ∀ e ∈ f.events, ∀ id, e.revisionId = some id → id ∈ Dag.keys StoredRevision.id f.revisions := by
    simp only [any_eq_true, mem_filterMap, not_exists, not_and, Bool.not_eq_true,
      Bool.not_eq_false', contains_eq_mem, decide_eq_true_eq, nil_append, mem_map,
      Dag.mem_keys]
    exact ⟨fun h e he id hid => h id ⟨e, he, hid⟩, fun h id ⟨e, he, hid⟩ => h e he id hid⟩
  rw [TrackedFile.historyRoot_eq_chainTip]
  constructor
  · intro h
    obtain ⟨seen, hrev, h⟩ := try_ok h
    obtain ⟨⟨hok, hpf, hroot⟩, rfl⟩ := checkRevisions_ok_iff.mp hrev
    have hpf' : Dag.ParentsFirst StoredRevision.id StoredRevision.parents ∅ f.revisions := by
      simpa using hpf
    obtain ⟨_, hproofs, h⟩ := try_ok h
    obtain ⟨hproof, hslots⟩ := (checkProofs_ok_iff fun _ ha _ hb => hpf'.key_inj ha hb).mp hproofs
    rw [empty_slots, Slots.check_tagsIn Slots.ok_nil] at hslots
    obtain ⟨hpay, h⟩ := else_ok h
    obtain ⟨hev, h⟩ := else_ok h
    obtain ⟨_, hsigned, h⟩ := try_ok h
    obtain ⟨hwf, -, hnodup⟩ := checkEventProofs_ok_iff.mp hsigned
    obtain ⟨hchain, htip⟩ := verifyChain_ok_iff.mp h
    obtain ⟨hgone, hkept⟩ := payload_rule.mp hpay
    exact ⟨⟨hok, hpf', rootedFrom_zero.mp hroot, hproof, hslots, hgone, hkept,
      hevents.mp hev, hwf, hnodup, hchain⟩, htip⟩
  · rintro ⟨hf, rfl⟩
    have hrev : checkRevisions f.fileId 0 [] f.revisions
        = .ok ([] ++ f.revisions.map StoredRevision.id) :=
      checkRevisions_ok_iff.mpr ⟨⟨hf.revisionOk, by simpa using hf.parentsFirst,
        rootedFrom_zero.mpr hf.oneRoot⟩, rfl⟩
    have hproofs : checkProofs f.revisions (fun _ => []) f.proofs = .ok () := by
      refine (checkProofs_ok_iff fun _ ha _ hb => hf.parentsFirst.key_inj ha hb).mpr ⟨hf.proofOk, ?_⟩
      rw [empty_slots, Slots.check_tagsIn Slots.ok_nil]
      exact hf.slots
    have hsigned : checkEventProofs f.events [] f.eventProofs = .ok () :=
      checkEventProofs_ok_iff.mpr ⟨hf.eventProofOk, by simp, hf.eventProofNodup⟩
    unfold verifyStructure
    rw [hrev, except_ok_bind, hproofs, except_ok_bind]
    rw [if_neg (payload_rule.mpr ⟨hf.gone, hf.kept⟩), if_neg (hevents.mpr hf.eventRevision), hsigned,
      except_ok_bind]
    exact verifyChain_ok_iff.mpr ⟨hf.chain, rfl⟩

theorem verifyStructure_isOk : (∃ root, verifyStructure f = .ok root) ↔ WellFormed f :=
  ⟨fun ⟨_, h⟩ => (verifyStructure_ok_iff.mp h).1, fun h => ⟨_, verifyStructure_ok_iff.mpr ⟨h, rfl⟩⟩⟩

end Verify

/-! ## §5. A sample file. -/

namespace Sample

def fileId : Id16 := .ofNat 16 0x6b65792d71756f72756d2d66696c6531

/-- The holder of `M.S`, the scope owner. -/
def owner : Id16 := .ofNat 16 1

/-- The holder of `M.S.2`. -/
def author : Id16 := .ofNat 16 2

def policy : FilePolicy := .standard "M.S"

def policyHash : Digest :=
  .ofNat 32 0x2cf19661c7c5cd54bd53b6488ad52d3e416c27f664ed37878811b6d87d5e69bd

/-- A revision of `notes.txt` in the first topology generation. -/
def stored (id : Nat) (parents : List Digest) (commitment : Nat) (identity : Id16)
    (hcpLabel createdAt stamp payload : String) : StoredRevision where
  revision := {
    revisionId := .ofNat 32 id
    fileId
    parentRevisionIds := parents
    contentCommitment := .ofNat 32 commitment
    generatedLabel := "Rnotes-" ++ stamp ++ "-" ++ hcpLabel
    userLabel := none
    authorIdentity := some identity
    authorHcpLabel := hcpLabel
    createdAtUtc := createdAt
    topologyGeneration := 1
    policyHash }
  payload := some (utf8Bytes payload)

def root : StoredRevision :=
  stored 0xaee44174fd1be707ca04e52993e9246d3eb72507475bdc5087459b574f369d58 []
    0x9fe2c811a755d197ec5e2ad8766485bde5bdfc1064db3f3071a9a14ce817a17f
    owner "M.S" "2026-10-02T14:32:05Z" "20261002T143205Z" "one"

def rival : StoredRevision :=
  stored 0x28be349bc661dacecc3095fe311d0c49cf06eba7123cc984f9c439a6dd4b89ad []
    0x8dd339248d34641a7aa53102b847214b3cc0f27ef686188764f1a7b865859ace
    author "M.S.2" "2026-10-02T14:40:00Z" "20261002T144000Z" "two"

def left : StoredRevision :=
  stored 0x3583065c370f75556093554fca20007e7a16701ca6d4d6467ac15fa07fab4fcf [root.id]
    0x88be4230a99c2e75c15b55b897ad9d8dff18da9ae8e2e2c6c80e65bf38af66fd
    owner "M.S" "2026-10-03T09:00:00Z" "20261003T090000Z" "three"

def right : StoredRevision :=
  stored 0xe67bbcd271dc61d544ed4d486615d4e611c57df27e08236dece036768e800706 [root.id]
    0x97785f7dccd3c095f9a431d5519f9724e6ab6fd4015c408d2574013d8ced831b
    author "M.S.2" "2026-10-03T10:30:00Z" "20261003T103000Z" "four"

def genesis : Digest := .ofNat 32 0x8dd35d8956a68ccadea86e84d6614ba1cb2ec22834042edfbb4f6f551b4f3c1f

def event (eventId : Nat) (sequence : UInt64) (revisionId : Option Digest) (previous : Digest)
    (hash : Nat) (occurredAt : String) (eventType : HistoryEventType) : HistoryEvent where
  eventId := .ofNat 16 eventId
  sequence := sequence
  fileId := fileId
  revisionId := revisionId
  previousEventHash := previous
  eventHash := .ofNat 32 hash
  occurredAt := occurredAt
  actorIdentity := some owner
  actorLabel := some "M.S"
  topologyGeneration := some 1
  eventType := eventType
  outcome := .success
  details := .new

def opened : HistoryEvent :=
  event 0xe0 0 (some root.id) genesis 0x274f4ea15dd3508f7e6ced6b2349a1bd6107e747faed006f76d43bc046cdb95c
    "2026-10-02T14:32:05Z" .trackingStarted

def renamed : HistoryEvent :=
  event 0xe1 1 none opened.eventHash 0xac1a305c22eabede90e6a0e1662c34171f1bca0f55d6c25a9467397831c35191
    "2026-10-02T15:00:00Z" .fileRenamed

/-- A proof on `revision`, bound to it. -/
def proof (revision : StoredRevision) (kind : ProofKind) (identity : Id16) (label : String)
    (backed : Option Digest) (signature : Nat) : RevisionProof where
  revisionId := revision.id
  kind := kind
  signerIdentity := identity
  signerLabel := label
  authorSignatureHash := backed
  topologyGeneration := 1
  policyHash := policyHash
  signature := .ofNat 64 signature

def signedRoot : RevisionProof :=
  proof root .content owner "M.S" none
    0x1f06fb6b8cd15e7a4fe52338d015c458e4e18ce04e80edfa4a13e755baeac75cf49e7b04c74ce813941b1d05e9b1c77ba01b9d48b89746fb558b30e10ab0e50a

def signedRootHash : Digest :=
  .ofNat 32 0x1111831788ea231222296cd9848a792af069337b697be913b8917e716288c0b0

def finalizedRoot : RevisionProof :=
  proof root .finalization owner "M.S" none
    0xa094b7759ee2c1fea006dd732bcf138c364ee407c8013ad546f490c96b02e5ced5ed21a4f26719e11523e1936c4e7c99f0e73164794949fc02af5e45f21feb05

def coauthoredRoot : RevisionProof :=
  proof root .coAuthor author "M.S.2" (some signedRootHash)
    0x63cee0c9d225c38cf26475f5e72f139cfff04f42591adcedb22c62cb2bad134c977a38d64647903162120ec47918cc189d71a3ce43e60304211ec406f6442406

def signedOpened : EventProof where
  sequence := 0
  signerIdentity := owner
  signerLabel := "M.S"
  signature := .ofNat 64
    0xf8f7e5fd2257e0a2070171edd452e58d6eb8c34e969693e235ed7779bd7d55b382dac3e7f833548400115a15376f3f08a5550577ad1c159a4363430dca47a30e

def bytesOf (encoded : Except Error Bytes) : Bytes := encoded.toOption.getD []

def hashes : List (Bytes × Digest) :=
  [(genesisDomain ++ fileId.bytes, genesis), (policyDomain ++ bytesOf policy.bytes, policyHash)]
    ++ [root, rival, left, right].map (fun stored =>
      (revisionIdDomain ++ bytesOf stored.revision.body, stored.id))
    ++ [root, rival, left, right].map (fun stored =>
      ([contentDomain, fileId.bytes, stored.payload.getD []].flatten, stored.revision.contentCommitment))
    ++ [opened, renamed].map (fun e => (historyDomain ++ bytesOf e.body, e.eventHash))

def file (revisions : List StoredRevision) (proofs : List RevisionProof)
    (events : List HistoryEvent) (eventProofs : List EventProof) : TrackedFile where
  fileId := fileId
  logicalName := "notes.txt"
  revisions := revisions
  proofs := proofs
  events := events
  eventProofs := eventProofs
  policy := some policy

@[reducible] def crypto : Crypto := .known hashes []

def full : TrackedFile :=
  file [root, left, right] [signedRoot, finalizedRoot, coauthoredRoot] [opened, renamed] [signedOpened]

example : @verifyStructure crypto .ascii full = .ok renamed.eventHash := by decide +kernel

end Sample

end KeyQuorum
