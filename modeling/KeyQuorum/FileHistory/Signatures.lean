/-
  **SIGNING** revisions and events (the methods of `file_history/proof.rs`).

  Every revision signature ends in `add_proof`: an identical proof is not
  added twice, and a full slot loses its oldest proof first.
-/
import KeyQuorum.FileHistory.Trust

namespace KeyQuorum

open List Foundation

/-- The context of `countersign_revision`: no key is known and no bridge reports. -/
def noKeys : TrustContext where
  signingPublic := fun _ _ => none
  bridgeEvidence := fun _ => .none

namespace TrackedFile

/-! ## §1. Adding a proof. -/

/-- `graph().get`, or the error of the signing methods. -/
def revisionOf (f : TrackedFile) (revisionId : Digest) : Except Error FileRevision :=
  match f.get revisionId with
  | some stored => .ok stored.revision
  | none => .error .invalidTrackedFile

/-- The event at `sequence`, or the error of `sign_event`. -/
def eventAt (f : TrackedFile) (sequence : UInt64) : Except Error HistoryEvent :=
  match f.events[sequence.toNat]? with
  | some event => .ok event
  | none => .error .invalidTrackedFile

/-- `add_proof`: false when the identical proof is already held. -/
def addProof (proof : RevisionProof) : FileOp Bool := do
  let file ← Op.read
  if file.proofs.any (fun mine => mine.sameSlot proof && mine.signature = proof.signature) then
    pure false
  else do
    Op.modify (fun f => { f with
      proofs := Slots.makeRoom RevisionProof.slot maxProofsPerSlot proof.slot f.proofs ++ [proof] })
    pure true

def unsignedProof (revisionId : Digest) (revision : FileRevision) (kind : ProofKind)
    (signerIdentity : Id16) (signerLabel : String) (authorSignatureHash : Option Digest) :
    RevisionProof where
  revisionId := revisionId
  kind := kind
  signerIdentity := signerIdentity
  signerLabel := signerLabel
  authorSignatureHash := authorSignatureHash
  topologyGeneration := revision.topologyGeneration
  policyHash := revision.policyHash
  signature := FixedBytes.zero 64

structure ProofAdded (f : TrackedFile) (proof : RevisionProof) (f' : TrackedFile) : Prop where
  fresh : proof.signature ∉ Slots.tagsIn RevisionProof.slot RevisionProof.signature f.proofs proof.slot
  result : f' = { f with
    proofs := Slots.makeRoom RevisionProof.slot maxProofsPerSlot proof.slot f.proofs ++ [proof] }

theorem addProof_cases (proof : RevisionProof) (f : TrackedFile) :
    addProof proof f = (.ok false, f)
      ∨ ∃ f', addProof proof f = (.ok true, f') ∧ ProofAdded f proof f' := by
  by_cases hheld : f.proofs.any (fun mine =>
      mine.sameSlot proof && decide (mine.signature = proof.signature))
  · left
    simp only [addProof, Op.read_bind, hheld, if_true]
    rfl
  · right
    refine ⟨_, ?_, ⟨?_, rfl⟩⟩
    · simp only [addProof, Op.read_bind, hheld]
      rfl
    · intro hmem
      obtain ⟨mine, hmine, hslot, hsig⟩ := Slots.mem_tagsIn.mp hmem
      refine hheld (any_eq_true.mpr ⟨mine, hmine, ?_⟩)
      rw [Bool.and_eq_true, decide_eq_true_eq]
      exact ⟨RevisionProof.sameSlot_iff.mpr hslot, hsig⟩

theorem addProof_ok (h : addProof proof f = (.ok added, f')) :
    (added = false ∧ f' = f) ∨ (added ∧ ProofAdded f proof f') := by
  rcases addProof_cases proof f with hheld | ⟨f'', hnew, hadded⟩
  · rw [hheld] at h
    obtain ⟨hadd, hfile⟩ := Prod.mk.inj h
    exact .inl ⟨(Except.ok.inj hadd).symm, hfile.symm⟩
  · rw [hnew] at h
    obtain ⟨hadd, hfile⟩ := Prod.mk.inj h
    exact .inr ⟨(Except.ok.inj hadd).symm, hfile ▸ hadded⟩

section Signing

variable [Crypto]

/-- The end of the signing methods: fill in the signature, and refuse an identical proof. -/
def signAndAdd (revision : FileRevision) (proof : RevisionProof) (secret : Digest) :
    FileOp Unit := do
  let digest ← Op.lift (proof.preimage revision)
  let added ← addProof { proof with signature := sign secret digest.bytes }
  Op.require added .invalidTrackedFile

/-- The author signature a supervisor or co-author backs: the first content proof that verifies,
or else the first. -/
def backedSignature (f : TrackedFile) (revisionId : Digest) (revision : FileRevision)
    (ctx : TrustContext) : Except Error Digest :=
  match (f.proofsFor revisionId .content).find? (proofVerifies ctx revision)
      <|> (f.proofsFor revisionId .content).head? with
  | some proof => .ok proof.signatureHash
  | none => .error .invalidTrackedFile

/-! ## §2. The signing methods. -/

section

variable (revisionId : Digest) (signerIdentity : Id16) (signerLabel : String) (secret : Digest)

/-- `sign_revision`: only the author content-signs. -/
def signRevision : FileOp Unit := do
  let file ← Op.read
  let revision ← Op.lift (file.revisionOf revisionId)
  Op.require (!(revision.authorIdentity ≠ some signerIdentity
    || revision.authorHcpLabel ≠ signerLabel)) .invalidTrackedFile
  signAndAdd revision (unsignedProof revisionId revision .content signerIdentity signerLabel none) secret

def finalizeRevision : FileOp Unit := do
  let file ← Op.read
  let revision ← Op.lift (file.revisionOf revisionId)
  signAndAdd revision
    (unsignedProof revisionId revision .finalization signerIdentity signerLabel none) secret

end

section

variable (revisionId : Digest) (supervisorIdentity : Id16) (supervisorLabel : String) (secret : Digest)

def countersignRevisionChecked (ctx : TrustContext) : FileOp Unit := do
  let file ← Op.read
  let revision ← Op.lift (file.revisionOf revisionId)
  let authorHash ← Op.lift (file.backedSignature revisionId revision ctx)
  signAndAdd revision (unsignedProof revisionId revision .countersignature supervisorIdentity
    supervisorLabel (some authorHash)) secret

/-- `countersign_revision`: no keys are consulted, so it backs the first content proof. -/
def countersignRevision : FileOp Unit :=
  countersignRevisionChecked revisionId supervisorIdentity supervisorLabel secret noKeys

end

/-- `coauthor_revision`: never by the author. -/
def coauthorRevision (revisionId : Digest) (coauthorIdentity : Id16) (coauthorLabel : String)
    (secret : Digest) (ctx : TrustContext) : FileOp Unit := do
  let file ← Op.read
  let revision ← Op.lift (file.revisionOf revisionId)
  Op.require (!(revision.authorHcpLabel = coauthorLabel
    || revision.authorIdentity = some coauthorIdentity)) .invalidTrackedFile
  let authorHash ← Op.lift (file.backedSignature revisionId revision ctx)
  signAndAdd revision (unsignedProof revisionId revision .coAuthor coauthorIdentity coauthorLabel
    (some authorHash)) secret

/-- `attach_coauthor_signature`: a signature made elsewhere; one already held is no error. -/
def attachCoauthorSignature (revisionId authorSignatureHash : Digest) (coauthorIdentity : Id16)
    (coauthorLabel : String) (signature : Signature) : FileOp Unit := do
  let file ← Op.read
  let revision ← Op.lift (file.revisionOf revisionId)
  Op.require (!(revision.authorHcpLabel = coauthorLabel
    || revision.authorIdentity = some coauthorIdentity
    || !(file.proofsFor revisionId .content).any (fun proof =>
      proof.signatureHash = authorSignatureHash))) .invalidTrackedFile
  let _ ← addProof { unsignedProof revisionId revision .coAuthor coauthorIdentity coauthorLabel
    (some authorSignatureHash) with signature }
  pure ()

/-- `sign_event`: the event's own actor signs it, once. -/
def signEvent (sequence : UInt64) (signerIdentity : Id16) (signerLabel : String)
    (secret : Digest) : FileOp Unit := do
  let file ← Op.read
  let event ← Op.lift (file.eventAt sequence)
  Op.require (!(event.actorLabel ≠ some signerLabel
    || event.actorIdentity ≠ some signerIdentity
    || file.eventProofs.any (fun p => p.sequence = sequence && p.signerLabel = signerLabel)))
    .invalidTrackedFile
  Op.modify (fun f => { f with eventProofs := f.eventProofs ++ [{
    sequence, signerIdentity, signerLabel
    signature := sign secret (eventPreimage file.fileId event).bytes }] })

/-! ## §3. What a signature did to the file. -/

def SignedInto (f f' : TrackedFile) : Prop :=
  ∃ proof, (∃ stored ∈ f.revisions, stored.id = proof.revisionId
    ∧ proofWellFormed proof stored.revision = true) ∧ ProofAdded f proof f'

variable {f f' : TrackedFile} {id secret : Digest} {revision : FileRevision} {u : Unit}
  {identity : Id16} {label : String}

omit [Crypto] in
theorem revisionOf_ok (h : f.revisionOf id = .ok revision) :
    ∃ stored ∈ f.revisions, stored.id = id ∧ stored.revision = revision := by
  unfold revisionOf at h
  split at h
  next stored hget =>
    injection h with h
    obtain ⟨hmem, hid⟩ := RevisionGraph.get_some hget
    exact ⟨stored, hmem, hid, h⟩
  next => cases h

variable {sequence : UInt64} {proof : RevisionProof}

omit [Crypto] in
theorem eventAt_ok (h : f.eventAt sequence = .ok event) : f.events[sequence.toNat]? = some event := by
  unfold eventAt at h
  split at h
  next e he =>
    injection h with h
    rw [he, h]
  next => cases h

/-- An event proof was added: by the event's actor, who had not signed it yet. -/
structure EventSigned (f : TrackedFile) (proof : EventProof) (f' : TrackedFile) : Prop where
  proofOk : eventProofWellFormed f.events proof = true
  fresh : ∀ p ∈ f.eventProofs, ¬ (p.sequence = proof.sequence ∧ p.signerLabel = proof.signerLabel)
  result : f' = { f with eventProofs := f.eventProofs ++ [proof] }

theorem signAndAdd_ok (hrevision : f.revisionOf proof.revisionId = .ok revision)
    (hproof : proofWellFormed proof revision)
    (h : signAndAdd revision proof secret f = (.ok u, f')) : SignedInto f f' := by
  obtain ⟨digest, -, h⟩ := Op.lift_bind_ok h
  obtain ⟨added, mid, hadd, h⟩ := Op.bind_ok h
  obtain ⟨stored, hmem, hid, rfl⟩ := revisionOf_ok hrevision
  rcases addProof_ok hadd with ⟨rfl, -⟩ | ⟨rfl, hadded⟩
  · exact absurd h (by simp [Op.require])
  · obtain rfl : mid = f' := (Prod.mk.inj h).2
    -- the well-formedness rules do not read the signature that was filled in
    exact ⟨{ proof with signature := sign secret digest.bytes }, ⟨stored, hmem, hid, hproof⟩, hadded⟩

variable {authorHash : Digest} {signature : Signature}

theorem signAndAdd_atomic :
    Op.Atomic (signAndAdd revision proof secret) := by
  refine .lift_bind fun digest => ?_
  intro f e h
  rcases addProof_cases { proof with signature := sign secret digest.bytes } f with
    hheld | ⟨f', hnew, -⟩
  · -- the only error is the one for a proof already held, and that one was not added
    rw [Op.bind_of_ok hheld]
    rfl
  · rw [Op.bind_of_ok hnew] at h
    exact absurd h (by simp [Op.require])

theorem signRevision_ok (h : signRevision id identity label secret f = (.ok u, f')) :
    SignedInto f f' := by
  obtain ⟨revision, hrevision, h⟩ := Op.lift_bind_ok (Op.read_bind_ok h)
  obtain ⟨hauthor, h⟩ := Op.require_bind_ok h
  refine signAndAdd_ok hrevision ?_ h
  simp only [ne_eq, Bool.not_eq_eq_eq_not, Bool.not_true, Bool.or_eq_false_iff,
    decide_eq_false_iff_not, not_not] at hauthor
  simp [proofWellFormed, unsignedProof, hauthor]

theorem finalizeRevision_ok
    (h : finalizeRevision id identity label secret f = (.ok u, f')) : SignedInto f f' := by
  obtain ⟨revision, hrevision, h⟩ := Op.lift_bind_ok (Op.read_bind_ok h)
  exact signAndAdd_ok hrevision (by simp [proofWellFormed, unsignedProof]) h

theorem countersignRevisionChecked_ok
    (h : countersignRevisionChecked id identity label secret ctx f = (.ok u, f')) :
    SignedInto f f' := by
  obtain ⟨revision, hrevision, h⟩ := Op.lift_bind_ok (Op.read_bind_ok h)
  obtain ⟨authorHash, -, h⟩ := Op.lift_bind_ok h
  exact signAndAdd_ok hrevision (by simp [proofWellFormed, unsignedProof]) h

omit [Crypto] in
theorem coauthor_wellFormed (id : Digest) (hlabel : revision.authorHcpLabel ≠ label)
    (hidentity : revision.authorIdentity ≠ some identity) (authorHash : Digest) :
    proofWellFormed (unsignedProof id revision .coAuthor identity label (some authorHash)) revision
      := by
  simp [proofWellFormed, unsignedProof, hlabel.symm, hidentity.symm]

theorem coauthorRevision_ok
    (h : coauthorRevision id identity label secret ctx f = (.ok u, f')) : SignedInto f f' := by
  obtain ⟨revision, hrevision, h⟩ := Op.lift_bind_ok (Op.read_bind_ok h)
  obtain ⟨hother, h⟩ := Op.require_bind_ok h
  obtain ⟨authorHash, -, h⟩ := Op.lift_bind_ok h
  refine signAndAdd_ok hrevision ?_ h
  simp only [Bool.not_eq_eq_eq_not, Bool.not_true, Bool.or_eq_false_iff,
    decide_eq_false_iff_not] at hother
  exact coauthor_wellFormed id hother.1 hother.2 authorHash

theorem attachCoauthorSignature_ok
    (h : attachCoauthorSignature id authorHash identity label signature f = (.ok u, f')) :
    f' = f ∨ SignedInto f f' := by
  obtain ⟨revision, hrevision, h⟩ := Op.lift_bind_ok (Op.read_bind_ok h)
  obtain ⟨hother, h⟩ := Op.require_bind_ok h
  obtain ⟨added, mid, hadd, h⟩ := Op.bind_ok h
  obtain ⟨-, rfl⟩ := Op.pure_ok h
  simp only [Bool.not_eq_eq_eq_not, Bool.not_true, Bool.or_eq_false_iff,
    decide_eq_false_iff_not] at hother
  obtain ⟨stored, hmem, hid, rfl⟩ := revisionOf_ok hrevision
  rcases addProof_ok hadd with ⟨-, rfl⟩ | ⟨-, hadded⟩
  · exact .inl rfl
  · refine .inr ⟨_, ⟨stored, hmem, hid, ?_⟩, hadded⟩
    exact coauthor_wellFormed id hother.1.1 hother.1.2 authorHash

theorem signEvent_ok (h : signEvent sequence identity label secret f = (.ok u, f')) :
    ∃ proof, EventSigned f proof f' := by
  obtain ⟨event, hevent, h⟩ := Op.lift_bind_ok (Op.read_bind_ok h)
  obtain ⟨hok, h⟩ := Op.require_bind_ok h
  simp only [ne_eq, Bool.not_eq_eq_eq_not, Bool.not_true, Bool.or_eq_false_iff,
    decide_eq_false_iff_not, not_not, any_eq_false, Bool.and_eq_true, decide_eq_true_eq,
    not_and] at hok
  refine ⟨_, ⟨?_, ?_, Op.modify_ok h⟩⟩
  · simp [eventProofWellFormed, eventAt_ok hevent, hok.1]
  · rintro p hp ⟨hseq, hlabel⟩
    exact hok.2 p hp hseq hlabel

/-! ## §4. Failed calls did nothing. -/

theorem signRevision_atomic :
    Op.Atomic (signRevision id identity label secret) :=
  .read_bind fun _ => .lift_bind fun _ => .require_bind <| signAndAdd_atomic

theorem finalizeRevision_atomic : Op.Atomic (finalizeRevision id identity label secret) :=
  .read_bind fun _ => .lift_bind fun _ => signAndAdd_atomic

theorem countersignRevisionChecked_atomic :
    Op.Atomic (countersignRevisionChecked id identity label secret ctx) :=
  .read_bind fun _ => .lift_bind fun _ => .lift_bind fun _ => signAndAdd_atomic

theorem coauthorRevision_atomic : Op.Atomic (coauthorRevision id identity label secret ctx) :=
  .read_bind fun _ => .lift_bind fun _ => .require_bind <| .lift_bind fun _ => signAndAdd_atomic

omit [Crypto] in
theorem addProof_atomic : Op.Atomic (addProof proof) := by
  intro f e h
  rcases addProof_cases proof f with hheld | ⟨f', hnew, -⟩
  · rw [hheld]
  · rw [hnew] at h
    cases h

theorem attachCoauthorSignature_atomic :
    Op.Atomic (attachCoauthorSignature id authorHash identity label signature) :=
  .read_bind fun _ => .lift_bind fun _ => .require_bind <| addProof_atomic.bind_pure fun _ => ()

theorem signEvent_atomic : Op.Atomic (signEvent sequence identity label secret) :=
  .read_bind fun _ => .lift_bind fun _ => .require_bind <| .modify _

/-! ## §5. Signed files stay well formed. -/

variable [CharTable]

theorem signedInto_wellFormed (hf : WellFormed f) (h : SignedInto f f') :
    WellFormed f' := by
  obtain ⟨proof, hproof, hadded⟩ := h
  rw [hadded.result]
  refine { hf with proofOk := ?_, slots := ?_ }
  · intro p hp
    rcases mem_snoc.mp hp with hp | rfl
    · exact hf.proofOk p ((Slots.makeRoom_sublist _ _).subset hp)
    · exact hproof
  · exact Slots.ok_makeRoom_concat (by decide) hf.slots hadded.fresh

theorem eventSigned_wellFormed {proof : EventProof} (hf : WellFormed f)
    (h : EventSigned f proof f') : WellFormed f' := by
  rw [h.result]
  refine { hf with eventProofOk := ?_, eventProofNodup := ?_ }
  · intro p hp
    rcases mem_snoc.mp hp with hp | rfl
    · exact hf.eventProofOk p hp
    · exact h.proofOk
  · rw [map_append, nodup_append]
    refine ⟨hf.eventProofNodup, by simp, ?_⟩
    rintro key hkey _ hnew rfl
    obtain ⟨p, hp, hpkey⟩ := mem_map.mp hkey
    rw [map_singleton, mem_singleton] at hnew
    exact h.fresh p hp (by simpa using hpkey.trans hnew)

end Signing

end TrackedFile

end KeyQuorum
