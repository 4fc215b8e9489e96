/-
  **WHICH REVISION IS DELIVERED** (`proof_descriptor` and
  `select_shareable_revision` in `file_history/policy.rs`).

  Newer is not trusted: the candidate if it is trusted, otherwise the most
  recently stored trusted ancestor, otherwise nothing.  The decision carries
  a digest of the delivered revision's proofs, which the receiver recomputes
  from the pruned copy it opened.
-/
import KeyQuorum.FileHistory.Extract
import KeyQuorum.FileHistory.Trust

namespace KeyQuorum

open List Foundation

inductive DeliveryDecisionKind where
  | currentTrustedRevision
  | lastTrustedRevision
  | requesterAlreadyCurrent
  | deniedNoTrustedRevision
  | deniedPolicy
  deriving DecidableEq, Repr

/-- `DeliveryDecision`. -/
structure DeliveryDecision where
  candidateRevision : Digest
  deliveredRevision : Option Digest
  decision : DeliveryDecisionKind
  contentProof : Option Digest
  deriving DecidableEq, Repr

def proofDescriptorDomain : Bytes := utf8Bytes "KQ-FILE-PROOF-DESCRIPTOR-v1"

def descriptorEntry (proof : RevisionProof) : Except Error Bytes := do
  let label ← hashLenPrefixed (utf8Bytes proof.signerLabel)
  let backed := match proof.authorSignatureHash with
    | some hash => 1 :: hash.bytes
    | none => [0]
  .ok [[proof.kind.code], proof.signerIdentity.bytes, label, backed,
    u64Bytes proof.topologyGeneration, proof.policyHash.bytes, proof.signature.bytes].flatten

variable {proof : RevisionProof}

theorem descriptorEntry_error (h : descriptorEntry proof = .error e) :
    e = .bundleFieldTooLarge ∧ ¬ FitsField proof.signerLabel := by
  unfold descriptorEntry hashLenPrefixed pushCount at h
  split at h
  next => cases h
  next hlong => exact ⟨(Except.error.inj h).symm, hlong⟩

theorem fitsField_of_descriptorEntry (h : descriptorEntry proof = .ok bytes) :
    FitsField proof.signerLabel := by
  unfold descriptorEntry hashLenPrefixed pushCount at h
  split at h
  next hfits => exact hfits
  next => cases h

namespace TrackedFile

section Sharing

variable [Crypto]

/-! ## §1. The decision. -/

def proofDescriptor (f : TrackedFile) (revision : Digest) : Except Error Digest := do
  let entries ← writeAll descriptorEntry (f.proofs.filter (fun proof => proof.revisionId = revision))
  .ok (sha256 [proofDescriptorDomain, revision.bytes, entries].flatten)

section

variable (f : TrackedFile) (candidate : Digest) (policy : FilePolicy) (ctx : TrustContext)

/-- The most recently stored trusted ancestor other than the candidate. -/
def trustedFallback : Option Digest :=
  (f.revisions.reverse.map StoredRevision.id).find? (fun id =>
    id ≠ candidate && (RevisionGraph.ancestorSet f.revisions candidate).contains id
      && f.isTrusted policy ctx id)

/-- The reason nothing is delivered: refused outright is not the same as not yet trusted. -/
def refusalKind : DeliveryDecisionKind :=
  match f.evaluateRevisionTrust candidate policy ctx with
  | .ok (.denied _) => .deniedPolicy
  | _ => .deniedNoTrustedRevision

def chooseShareable : Option Digest × DeliveryDecisionKind :=
  if f.isTrusted policy ctx candidate then (some candidate, .currentTrustedRevision)
  else match f.trustedFallback candidate policy ctx with
    | some id => (some id, .lastTrustedRevision)
    | none => (none, f.refusalKind candidate policy ctx)

end

def askRequester (delivered requesterHas : Option Digest) (kind : DeliveryDecisionKind) :
    DeliveryDecisionKind :=
  match delivered, requesterHas with
  | some id, some held => if id = held then .requesterAlreadyCurrent else kind
  | _, _ => kind

def describeDelivered (f : TrackedFile) : Option Digest → Except Error (Option Digest)
  | none => .ok none
  | some id => do
      let digest ← f.proofDescriptor id
      .ok (some digest)

def selectShareableRevision (f : TrackedFile) (candidate : Digest) (requesterHas : Option Digest)
    (policy : FilePolicy) (ctx : TrustContext) : Except Error DeliveryDecision :=
  match f.get candidate with
  | none => .error .invalidTrackedFile
  | some _ => do
      let chosen := f.chooseShareable candidate policy ctx
      let contentProof ← f.describeDelivered chosen.1
      .ok {
        candidateRevision := candidate
        deliveredRevision := chosen.1
        decision := askRequester chosen.1 requesterHas chosen.2
        contentProof }

/-! ## §2. What is delivered. -/

/-- The revision to be delivered: the candidate if it is trusted, and otherwise the most recently stored
trusted ancestor. -/
structure ToDeliver (f : TrackedFile) (candidate : Digest) (policy : FilePolicy) (ctx : TrustContext)
    (id : Digest) : Prop where
  trusted : f.evaluateRevisionTrust id policy ctx = .ok .trusted
  ancestor : f.Ancestor id candidate
  latest : id = candidate ∨ f.evaluateRevisionTrust candidate policy ctx ≠ .ok .trusted
    ∧ ∃ before after, f.revisions.map StoredRevision.id = before ++ id :: after
      ∧ ∀ later ∈ after, f.Ancestor later candidate → f.evaluateRevisionTrust later policy ctx ≠ .ok .trusted

variable {id : Digest}

theorem proofDescriptor_error {f : TrackedFile} (h : f.proofDescriptor id = .error e) :
    e = .bundleFieldTooLarge ∧ ∃ proof ∈ f.proofs, proof.revisionId = id
      ∧ ¬ FitsField proof.signerLabel := by
  cases hw : writeAll descriptorEntry (f.proofs.filter (fun proof => proof.revisionId = id)) with
  | ok entries =>
    rw [proofDescriptor, hw] at h
    cases h
  | error e' =>
    rw [proofDescriptor, hw] at h
    obtain rfl : e' = e := Except.error.inj h
    obtain ⟨proof, hmem, hproof⟩ := writeAll_error hw
    obtain ⟨rfl, hlong⟩ := descriptorEntry_error hproof
    obtain ⟨hmem, hid⟩ := mem_filter.mp hmem
    exact ⟨rfl, proof, hmem, by simpa using hid, hlong⟩

theorem proofDescriptor_of_long {f : TrackedFile} (hmem : proof ∈ f.proofs)
    (hlong : ¬ FitsField proof.signerLabel) :
    f.proofDescriptor proof.revisionId = .error .bundleFieldTooLarge := by
  cases hdescriptor : f.proofDescriptor proof.revisionId with
  | ok digest =>
    obtain ⟨entries, hw, -⟩ := try_ok hdescriptor
    obtain ⟨bytes, hbytes⟩ := writeAll_ok_mem hw proof (mem_filter.mpr ⟨hmem, by simp⟩)
    exact absurd (fitsField_of_descriptorEntry hbytes) hlong
  | error e => rw [(proofDescriptor_error hdescriptor).1]

variable [CharTable] {f : TrackedFile} {candidate : Digest} {policy : FilePolicy}
  {ctx : TrustContext}

section

variable (hf : WellFormed f) (hcandidate : candidate ∈ Dag.keys StoredRevision.id f.revisions)

include hf hcandidate

theorem trustedFallback_some (hself : f.isTrusted policy ctx candidate = false) (id : Digest) :
    f.trustedFallback candidate policy ctx = some id ↔ f.isTrusted policy ctx id ∧ f.Ancestor id candidate
      ∧ ∃ before after, f.revisions.map StoredRevision.id = before ++ id :: after
        ∧ ∀ later ∈ after, f.Ancestor later candidate → ¬ f.isTrusted policy ctx later := by
  have hpass (k : Digest) : (decide (k ≠ candidate)
      && (RevisionGraph.ancestorSet f.revisions candidate).contains k && f.isTrusted policy ctx k) = true
        ↔ f.isTrusted policy ctx k ∧ f.Ancestor k candidate := by
    have hne : f.isTrusted policy ctx k → k ≠ candidate := by
      rintro h rfl
      exact absurd (h.symm.trans hself) (by simp)
    simp only [Bool.and_eq_true, decide_eq_true_eq, contains_eq_mem, mem_ancestorSet hf hcandidate]
    exact ⟨fun h => ⟨h.2, h.1.2⟩, fun h => ⟨⟨hne h.1, h.2⟩, h.1⟩⟩
  unfold trustedFallback
  rw [find?_eq_some_iff_append, hpass, map_reverse, and_assoc]
  refine and_congr_right fun _ => and_congr_right fun _ => ?_
  -- the search runs from the newest revision to the oldest
  constructor
  · rintro ⟨newer, older, hsplit, hnone⟩
    refine ⟨older.reverse, newer.reverse, ?_, fun later hlater hancestor htrusted => ?_⟩
    · rw [← reverse_reverse (f.revisions.map _), hsplit]
      simp
    · have hfail := hnone later (mem_reverse.mp hlater)
      rw [Bool.not_eq_true', ← Bool.not_eq_true, hpass] at hfail
      exact hfail ⟨htrusted, hancestor⟩
  · rintro ⟨before, after, hsplit, hnone⟩
    refine ⟨after.reverse, before.reverse, by simp [hsplit], fun k hk => ?_⟩
    rw [Bool.not_eq_true', ← Bool.not_eq_true, hpass]
    exact fun h => hnone k (mem_reverse.mp hk) h.2 h.1

/-- **What is chosen.** -/
theorem chooseShareable_some :
    (f.chooseShareable candidate policy ctx).1 = some id ↔ f.ToDeliver candidate policy ctx id := by
  unfold chooseShareable
  by_cases hself : f.isTrusted policy ctx candidate
  · rw [if_pos hself]
    constructor
    · rintro ⟨⟩
      exact ⟨isTrusted_iff.mp hself, .refl, .inl rfl⟩
    · rintro ⟨-, -, rfl | ⟨hnot, -⟩⟩
      · rfl
      · exact absurd (isTrusted_iff.mp hself) hnot
  · have hiff := trustedFallback_some hf hcandidate (Bool.eq_false_iff.mpr hself) id
    simp only [isTrusted_iff] at hself hiff
    rw [if_neg (by simpa [isTrusted_iff] using hself)]
    constructor
    · intro h
      have hfound : f.trustedFallback candidate policy ctx = some id := by
        split at h
        next found hfound => exact hfound.trans h
        next => cases h
      obtain ⟨htrusted, hancestor, hlatest⟩ := hiff.mp hfound
      exact ⟨htrusted, hancestor, .inr ⟨hself, hlatest⟩⟩
    · rintro ⟨htrusted, hancestor, rfl | ⟨-, hlatest⟩⟩
      · exact absurd htrusted hself
      · rw [hiff.mpr ⟨htrusted, hancestor, hlatest⟩]

/-- **Something is chosen whenever there is a trusted ancestor.** -/
theorem chooseShareable_isSome (hancestor : f.Ancestor id candidate)
    (htrusted : f.evaluateRevisionTrust id policy ctx = .ok .trusted) :
    ∃ chosen, (f.chooseShareable candidate policy ctx).1 = some chosen := by
  unfold chooseShareable
  by_cases hself : f.isTrusted policy ctx candidate
  · exact ⟨candidate, by rw [if_pos hself]⟩
  · have hne : id ≠ candidate := fun heq => hself (isTrusted_iff.mpr (heq ▸ htrusted))
    obtain ⟨stored, hs, rfl⟩ := hf.parentsFirst.reach_mem hcandidate hancestor
    obtain ⟨chosen, hchosen⟩ : ∃ chosen, f.trustedFallback candidate policy ctx = some chosen := by
      refine Option.isSome_iff_exists.mp (find?_isSome.mpr ⟨stored.id, ?_, ?_⟩)
      · exact mem_map.mpr ⟨stored, mem_reverse.mpr hs, rfl⟩
      · simp [hne, isTrusted_iff.mpr htrusted, (mem_ancestorSet hf hcandidate).mpr hancestor]
    exact ⟨chosen, by rw [if_neg hself, hchosen]⟩

end

omit [CharTable] in
theorem selectShareableRevision_ok
    (h : f.selectShareableRevision candidate requesterHas policy ctx = .ok decision) :
    decision.deliveredRevision = (f.chooseShareable candidate policy ctx).1 := by
  unfold selectShareableRevision at h
  split at h
  next => cases h
  next =>
    obtain ⟨_, -, h⟩ := try_ok h
    rw [← Except.ok.inj h]

omit [CharTable] in
theorem selectShareableRevision_of_chosen (requesterHas : Option Digest)
    (hcandidate : candidate ∈ Dag.keys StoredRevision.id f.revisions)
    (hchosen : (f.chooseShareable candidate policy ctx).1 = some id) :
    f.selectShareableRevision candidate requesterHas policy ctx
      = (f.proofDescriptor id).map (fun digest => {
          candidateRevision := candidate
          deliveredRevision := some id
          decision := askRequester (some id) requesterHas (f.chooseShareable candidate policy ctx).2
          contentProof := some digest }) := by
  obtain ⟨stored, hget⟩ := Option.isSome_iff_exists.mp (get_isSome.mpr hcandidate)
  rw [selectShareableRevision, hget]
  simp only [hchosen, describeDelivered]
  cases f.proofDescriptor id with
  | ok digest => rfl
  | error e => rfl

/-! ## §3. The decision and the copy. -/

/-- **Delivery.**  Of a verified, live file nothing is delivered but the revision to be delivered, there is
one whenever there is a trusted ancestor, and it is delivered exactly when the labels of its proofs are within
the field limit.  Any revision can be extracted: the copy holds it and its ancestors and nothing else, it is
the only head, the events are a prefix, and what is kept has the verdict and the descriptor it had. -/
theorem deliver_and_extract {root : Digest} (hverify : verifyStructure f = .ok root)
    (hlive : f.isDestroyed = false) :
    (∀ candidate ∈ Dag.keys StoredRevision.id f.revisions, ∀ requesterHas policy ctx,
      (∀ decision, f.selectShareableRevision candidate requesterHas policy ctx = .ok decision →
        ∀ id, decision.deliveredRevision = some id ↔ f.ToDeliver candidate policy ctx id)
      ∧ ((∃ id, f.Ancestor id candidate ∧ f.evaluateRevisionTrust id policy ctx = .ok .trusted) →
        ∃ id, f.ToDeliver candidate policy ctx id)
      ∧ ∀ id, f.ToDeliver candidate policy ctx id →
        ((∀ proof ∈ f.proofs, proof.revisionId = id → FitsField proof.signerLabel) →
          ∃ decision, f.selectShareableRevision candidate requesterHas policy ctx = .ok decision
            ∧ decision.deliveredRevision = some id)
        ∧ ((∃ proof ∈ f.proofs, proof.revisionId = id ∧ ¬ FitsField proof.signerLabel) →
          f.selectShareableRevision candidate requesterHas policy ctx = .error .bundleFieldTooLarge))
    ∧ ∀ id ∈ Dag.keys StoredRevision.id f.revisions, ∃ copy, f.extractRevision id = .ok copy
      ∧ (∀ stored, stored ∈ copy.revisions ↔ stored ∈ f.revisions ∧ f.Ancestor stored.id id)
      ∧ RevisionGraph.heads copy.revisions = [id]
      ∧ copy.events <+: f.events
      ∧ ∀ stored ∈ copy.revisions, (∀ policy ctx, copy.evaluateRevisionTrust stored.id policy ctx
          = f.evaluateRevisionTrust stored.id policy ctx)
        ∧ copy.proofDescriptor stored.id = f.proofDescriptor stored.id := by
  have hf := (verifyStructure_ok_iff.mp hverify).1
  constructor
  · intro candidate hcandidate requesterHas policy ctx
    refine ⟨fun decision hselect id => ?_, ?_, fun id hdeliver => ?_⟩
    · rw [selectShareableRevision_ok hselect, chooseShareable_some hf hcandidate]
    · rintro ⟨id, hancestor, htrusted⟩
      obtain ⟨chosen, hchosen⟩ := chooseShareable_isSome hf hcandidate hancestor htrusted
      exact ⟨chosen, (chooseShareable_some hf hcandidate).mp hchosen⟩
    · rw [selectShareableRevision_of_chosen requesterHas hcandidate
        ((chooseShareable_some hf hcandidate).mpr hdeliver)]
      constructor
      · intro hfits
        cases hdescriptor : f.proofDescriptor id with
        | ok digest => exact ⟨_, rfl, rfl⟩
        | error e =>
          obtain ⟨-, proof, hmem, hid, hlong⟩ := proofDescriptor_error hdescriptor
          exact absurd (hfits proof hmem hid) hlong
      · rintro ⟨proof, hmem, rfl, hlong⟩
        rw [proofDescriptor_of_long hmem hlong]
        rfl
  · intro id hid
    refine ⟨_, extractRevision_total hf hlive hid, ?_, heads_prunedTo hf hlive hid,
      prunedTo_events f _, ?_⟩
    · intro stored
      rw [mem_prunedTo, mem_ancestorSet hf hid]
    · intro stored hstored
      have hkept := (mem_prunedTo.mp hstored).2
      refine ⟨fun policy ctx => evaluate_congr (get_prunedTo hkept) (proofs_prunedTo hkept), ?_⟩
      rw [proofDescriptor, proofDescriptor, proofs_prunedTo hkept]

end Sharing

end TrackedFile

/-! ## §4. A delivery and a refused one. -/

namespace Sample

/-- The proofs of `root` in a copy that holds the owner's signature only. -/
def descriptorHashes : List (Bytes × Digest) :=
  [([proofDescriptorDomain, root.id.bytes, bytesOf (descriptorEntry signedRoot)].flatten,
    .ofNat 32 0x23bc18fd2e4c6a4b1a90706e5069984decead367c6b86514fe5a415d27f0d9e9)]

@[reducible] def shareCrypto : Crypto :=
  .known (hashes ++ signingHashes ++ descriptorHashes) signed

def edited : TrackedFile := file [root, left] [signedRoot] [opened, renamed] []

/-- The signed revision, and a co-author proof under `label`. -/
def coauthoredBy (label : String) : TrackedFile :=
  file [root] [signedRoot, { coauthoredRoot with signerLabel := label }] [] []

/-- A label of `n` bytes. -/
def labelOf (n : Nat) : String := String.ofList (List.replicate n 'x')

theorem labelOf_long (h : 256 ^ 2 ≤ n) : ¬ FitsField (labelOf n) := by
  have hle := length_le_utf8Bytes (labelOf n)
  rw [labelOf, String.length_ofList, length_replicate] at hle
  exact Nat.not_lt.mpr (Nat.le_trans h hle)

end Sample

namespace TrackedFile

attribute [local instance] Sample.shareCrypto CharTable.ascii
open Sample

theorem deliver_and_extract_sample :
    (∃ decision, edited.selectShareableRevision left.id none Sample.policy Sample.keys
        = .ok decision ∧ decision.deliveredRevision = some root.id)
      ∧ edited.Ancestor root.id left.id
      ∧ ∃ copy, edited.extractRevision root.id = .ok copy
        ∧ RevisionGraph.heads copy.revisions = [root.id] := by
  have hverify : verifyStructure edited = .ok renamed.eventHash := by decide +kernel
  have hselect : edited.selectShareableRevision left.id none Sample.policy Sample.keys
      = .ok ⟨left.id, some root.id, .lastTrustedRevision,
        some (.ofNat 32 0x23bc18fd2e4c6a4b1a90706e5069984decead367c6b86514fe5a415d27f0d9e9)⟩ := by
    decide +kernel
  have hleft : left.id ∈ Dag.keys StoredRevision.id edited.revisions :=
    ⟨left, by decide +kernel, rfl⟩
  have hroot : root.id ∈ Dag.keys StoredRevision.id edited.revisions :=
    ⟨root, by decide +kernel, rfl⟩
  obtain ⟨hdeliver, hextract⟩ := deliver_and_extract hverify (by decide +kernel)
  obtain ⟨copy, hcopy, -, hheads, -⟩ := hextract root.id hroot
  have hto := ((hdeliver left.id hleft none Sample.policy Sample.keys).1 _ hselect root.id).mp rfl
  exact ⟨⟨_, hselect, rfl⟩, hto.ancestor, copy, hcopy, hheads⟩

variable {label : String}

theorem coauthoredBy_wellFormed (hlabel : label ≠ "M.S") :
    WellFormed (coauthoredBy label) := by
  have hsigned : WellFormed (file [root] [signedRoot] [] []) :=
    verifyStructure_isOk.mp ⟨genesis, by decide +kernel⟩
  refine { hsigned with proofOk := ?_, slots := ?_ }
  · intro p hp
    rcases mem_cons.mp hp with rfl | hp
    · exact hsigned.proofOk signedRoot (.head _)
    · rw [mem_singleton.mp hp]
      refine ⟨root, mem_singleton_self _, rfl, ?_⟩
      show (true && decide (label ≠ "M.S") && decide (some author ≠ some owner))
      rw [decide_eq_true hlabel]
      decide +kernel
  · refine Slots.ok_concat.mpr ⟨hsigned.slots, Slots.fits_iff.mpr ?_⟩
    have hempty : Slots.tagsIn RevisionProof.slot RevisionProof.signature [signedRoot]
        (RevisionProof.slot { coauthoredRoot with signerLabel := label }) = [] := by
      refine Slots.tagsIn_singleton_ne fun h => ?_
      have hcode : ProofKind.code .content = ProofKind.code .coAuthor :=
        congrArg (fun slot => slot.2.1) h
      exact absurd hcode (by decide)
    show _ ∉ Slots.tagsIn _ _ [signedRoot] _ ∧ (Slots.tagsIn _ _ [signedRoot] _).length < _
    rw [hempty]
    exact ⟨not_mem_nil, by decide⟩

theorem coauthoredBy_trusted :
    (coauthoredBy label).evaluateRevisionTrust root.id Sample.policy Sample.keys = .ok .trusted :=
  evaluate_append (f := file [root] [signedRoot] [] []) (append_nil _).symm
    (show _ = _ ++ [{ coauthoredRoot with signerLabel := label }] from rfl)
    (by decide +kernel)

theorem coauthoredBy_refused (hlong : ¬ FitsField label) :
    (coauthoredBy label).selectShareableRevision root.id none Sample.policy
      Sample.keys = .error .bundleFieldTooLarge := by
  have hchosen : ((coauthoredBy label).chooseShareable root.id Sample.policy
      Sample.keys).1 = some root.id := by
    rw [chooseShareable, if_pos (isTrusted_iff.mpr coauthoredBy_trusted)]
  have hmem : { coauthoredRoot with signerLabel := label }
      ∈ (coauthoredBy label).proofs := mem_cons_of_mem _ (mem_singleton_self _)
  have hdescriptor : (coauthoredBy label).proofDescriptor root.id
      = .error .bundleFieldTooLarge := proofDescriptor_of_long hmem hlong
  rw [selectShareableRevision_of_chosen none ⟨root, mem_singleton_self _, rfl⟩ hchosen, hdescriptor]
  rfl

/-- A verified, live file whose one revision is trusted, and which delivers nothing: a label on it
is one byte over the field limit. -/
theorem long_label_refuses_delivery :
    (∃ root, verifyStructure (coauthoredBy (labelOf 65536)) = .ok root)
      ∧ (coauthoredBy (labelOf 65536)).isDestroyed = false
      ∧ (coauthoredBy (labelOf 65536)).evaluateRevisionTrust root.id
        Sample.policy Sample.keys = .ok .trusted
      ∧ (coauthoredBy (labelOf 65536)).selectShareableRevision root.id none
        Sample.policy Sample.keys = .error .bundleFieldTooLarge := by
  have hlong : ¬ FitsField (labelOf 65536) := labelOf_long (Nat.le_refl _)
  have hlabel : labelOf 65536 ≠ "M.S" := by
    intro h
    rw [h] at hlong
    exact hlong (by decide)
  exact ⟨verifyStructure_isOk.mpr (coauthoredBy_wellFormed hlabel), rfl, coauthoredBy_trusted,
    coauthoredBy_refused hlong⟩

end TrackedFile

end KeyQuorum
