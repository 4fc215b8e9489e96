/-
  **WHETHER A REVISION IS TRUSTED** (`evaluate_revision_trust` in
  `file_history/policy.rs`).

  The verdict is read off three things only: the stored revision, the proofs
  that name it, and the trust context of the store that asks.
-/
import KeyQuorum.FileHistory.Verify
import KeyQuorum.Foundation.First

namespace KeyQuorum

open List Foundation

/-! ## §1. The rule. -/

inductive BridgeEvidence where
  | none
  | nonPrivateAuthorized
  | privateAuthorized
  deriving DecidableEq, Repr

inductive GenerationEvidence where
  | current
  | recorded
  | unavailable
  deriving DecidableEq, Repr

/-- `TrustContext`: what the evaluation asks of the store. The defaults are the trait's. -/
structure TrustContext where
  signingPublic : Id16 → String → Option Digest
  historicalSigningPublics : Id16 → String → UInt64 → List Digest := fun _ _ _ => []
  bridgeEvidence : Digest → BridgeEvidence
  revisionBridgeEvidence : FileRevision → String → BridgeEvidence :=
    fun revision _ => bridgeEvidence revision.revisionId
  bridgeBetween : String → String → BridgeEvidence := fun _ _ => .none
  generationEvidence : String → UInt64 → GenerationEvidence := fun _ _ => .current

inductive TrustReason where
  | policyHashMismatch
  | unrelatedActor
  | roleForbidden
  | missingContentSignature
  | generationMismatch
  | unknownSigner
  | invalidContentSignature
  | missingCountersignature
  | invalidCountersignature
  | missingBridgeOrOwnerApproval
  | missingBridgeApproval
  | missingScopeOwnerApproval
  | missingTopologyEvidence
  deriving DecidableEq, Repr

/-- `TrustState` of a revision. -/
inductive TrustState where
  | trusted
  | pending (reason : TrustReason)
  | denied (reason : TrustReason)
  deriving DecidableEq, Repr

/-- `bound_to`: the proof carries the revision's own generation and policy hash. -/
def boundTo (revision : FileRevision) (proof : RevisionProof) : Bool :=
  proof.topologyGeneration = revision.topologyGeneration && proof.policyHash = revision.policyHash

/-- The role's rule: either settled without a supervisor, or the label that has to back the
author and the reason given while nobody has. -/
def supervisorFor (requirement : Requirement) (revision : FileRevision) (policy : FilePolicy)
    (ctx : TrustContext) : Except TrustState (Option String × TrustReason) :=
  match requirement with
  | .authorSign => .error .trusted
  -- never reached: a forbidden role was refused earlier, and the source shares this arm
  | .forbidden => .error .trusted
  | .authorSignDirectParent =>
    .ok (parentNodeLabel revision.authorHcpLabel, .missingCountersignature)
  | .authorSignBridgeOrOwner =>
    if ctx.revisionBridgeEvidence revision policy.scopeRoot ≠ .none then .error .trusted
    else .ok (some policy.scopeRoot, .missingBridgeOrOwnerApproval)
  | .authorSignBridgeAndOwner =>
    if ctx.revisionBridgeEvidence revision policy.scopeRoot = .none then
      .error (.pending .missingBridgeApproval)
    else .ok (some policy.scopeRoot, .missingScopeOwnerApproval)

section Evaluation

variable [Crypto]

/-- `check_signature`: `none` when no key is known for the signer. -/
def checkSignature (revision : FileRevision) (proof : RevisionProof) (ctx : TrustContext) :
    Option Bool :=
  let current := ctx.signingPublic proof.signerIdentity proof.signerLabel
  let historical := ctx.historicalSigningPublics proof.signerIdentity proof.signerLabel
    revision.topologyGeneration
  -- the current key first, then the recorded ones it did not already name
  let candidates := current.toList ++ historical.filter (fun key => some key ≠ current)
  if candidates.isEmpty then none
  else some <| match proof.preimage revision with
    | .error _ => false
    | .ok digest => candidates.any (fun key =>
      (verifySignature key digest.bytes proof.signature).isOk)

def proofVerifies (ctx : TrustContext) (revision : FileRevision) (proof : RevisionProof) : Bool :=
  boundTo revision proof && checkSignature revision proof ctx = some true

def backs (ctx : TrustContext) (revision : FileRevision) (content proof : RevisionProof) : Bool :=
  proof.authorSignatureHash = some content.signatureHash && proofVerifies ctx revision proof

/-- The refusal when no content proof verifies: what is wrong with the first one. -/
def contentRefusal (revision : FileRevision) (first : RevisionProof) (ctx : TrustContext) :
    TrustReason :=
  if !boundTo revision first then .generationMismatch
  else match checkSignature revision first ctx with
    | none => .unknownSigner
    | some _ => .invalidContentSignature

def counterRefusal (revision : FileRevision) (content first : RevisionProof) (ctx : TrustContext) :
    TrustReason :=
  if !boundTo revision first then .generationMismatch
  else if first.authorSignatureHash ≠ some content.signatureHash then .invalidCountersignature
  else if (checkSignature revision first ctx).isNone then .unknownSigner
  else .invalidCountersignature

/-- The last stage: the countersignatures by the label the role names. -/
def counterVerdict (revision : FileRevision) (content : RevisionProof) (missing : TrustReason)
    (ctx : TrustContext) : List RevisionProof → TrustState
  | [] => .pending missing
  | first :: rest =>
    if (first :: rest).any (backs ctx revision content) then .trusted
    else .denied (counterRefusal revision content first ctx)

namespace TrackedFile

section

variable (f : TrackedFile) (revisionId : Digest)

def authorProofs (revision : FileRevision) : List RevisionProof :=
  (f.proofsFor revisionId .content).filter (fun proof =>
    proof.signerLabel = revision.authorHcpLabel && some proof.signerIdentity = revision.authorIdentity)

/-- The countersignatures by `supervisor`, if the role names one. -/
def countersBy (supervisor : Option String) : List RevisionProof :=
  supervisor.toList.flatMap (fun label =>
    (f.proofsFor revisionId .countersignature).filter (fun proof => proof.signerLabel = label))

section

variable (revision : FileRevision) (requirement : Requirement) (policy : FilePolicy)
    (ctx : TrustContext)

def supervisorVerdict (content : RevisionProof) : TrustState :=
  match supervisorFor requirement revision policy ctx with
  | .error verdict => verdict
  | .ok (supervisor, missing) =>
    counterVerdict revision content missing ctx (f.countersBy revisionId supervisor)

/-- The stages after the role was found to be permitted: find a content proof, then judge it. -/
def proofVerdict : TrustState :=
  match f.authorProofs revisionId revision with
  | [] => .pending .missingContentSignature
  | first :: rest =>
    match (first :: rest).find? (proofVerifies ctx revision) with
    | none => .denied (contentRefusal revision first ctx)
    | some content => f.supervisorVerdict revisionId revision requirement policy ctx content

end

def revisionVerdict (revision : FileRevision)
    (policyHash : Digest) (policy : FilePolicy) (ctx : TrustContext) : TrustState :=
  if revision.policyHash ≠ policyHash then .denied .policyHashMismatch
  else match policy.requirementFor revision.authorHcpLabel with
    | none => .denied .unrelatedActor
    | some requirement =>
      if requirement = .forbidden then .denied .roleForbidden
      else if ctx.generationEvidence policy.scopeRoot revision.topologyGeneration = .unavailable
      then .pending .missingTopologyEvidence
      else f.proofVerdict revisionId revision requirement policy ctx

/-- `evaluate_revision_trust`. -/
def evaluateRevisionTrust (policy : FilePolicy) (ctx : TrustContext) : Except Error TrustState := do
  match f.get revisionId with
  | none => .error .invalidTrackedFile
  | some stored => do
      let policyHash ← policy.policyHash
      .ok (f.revisionVerdict revisionId stored.revision policyHash policy ctx)

end

/-- `matches!(evaluate_revision_trust(..), Ok(Trusted))`. -/
def isTrusted (f : TrackedFile) (policy : FilePolicy) (ctx : TrustContext) (id : Digest) : Bool :=
  match f.evaluateRevisionTrust id policy ctx with
  | .ok .trusted => true
  | _ => false

variable {f g : TrackedFile} {policy : FilePolicy} {ctx : TrustContext} {id : Digest}
  {revision : FileRevision} {content : RevisionProof} {requirement : Requirement}
  {proofs : List RevisionProof}

theorem isTrusted_iff :
    f.isTrusted policy ctx id ↔ f.evaluateRevisionTrust id policy ctx = .ok .trusted := by
  unfold isTrusted
  split
  next h => simp [h]
  next h => simpa using h

/-! ## §2. The verdict `Trusted`. -/

structure AuthorProof (revision : FileRevision) (ctx : TrustContext) (content : RevisionProof) :
    Prop where
  revisionId : content.revisionId = revision.revisionId
  kind : content.kind = .content
  label : content.signerLabel = revision.authorHcpLabel
  identity : some content.signerIdentity = revision.authorIdentity
  verifies : proofVerifies ctx revision content = true

/-- One of `proofs` is a verifying countersignature by `label` over this very content proof. -/
def CountersignedBy (proofs : List RevisionProof) (revision : FileRevision) (ctx : TrustContext)
    (content : RevisionProof) (label : String) : Prop :=
  ∃ proof ∈ proofs, proof.revisionId = revision.revisionId ∧ proof.kind = .countersignature ∧
    proof.signerLabel = label ∧ proof.authorSignatureHash = some content.signatureHash ∧
    proofVerifies ctx revision proof = true

def Bridged (revision : FileRevision) (policy : FilePolicy) (ctx : TrustContext) : Prop :=
  ctx.revisionBridgeEvidence revision policy.scopeRoot ≠ .none

def Backed (proofs : List RevisionProof) (revision : FileRevision) (policy : FilePolicy)
    (ctx : TrustContext) (content : RevisionProof) : Requirement → Prop
  | .authorSign => True
  | .authorSignDirectParent =>
    ∃ parent ∈ parentNodeLabel revision.authorHcpLabel,
      CountersignedBy proofs revision ctx content parent
  | .authorSignBridgeOrOwner =>
    Bridged revision policy ctx ∨ CountersignedBy proofs revision ctx content policy.scopeRoot
  | .authorSignBridgeAndOwner =>
    Bridged revision policy ctx ∧ CountersignedBy proofs revision ctx content policy.scopeRoot
  | .forbidden => False

/-- The policy admits the revision's author, and the store can judge its generation. -/
structure Permitted (revision : FileRevision) (policy : FilePolicy) (ctx : TrustContext)
    (requirement : Requirement) : Prop where
  policyHash : policy.policyHash = .ok revision.policyHash
  rule : policy.requirementFor revision.authorHcpLabel = some requirement
  allowed : requirement ≠ .forbidden
  generation : ctx.generationEvidence policy.scopeRoot revision.topologyGeneration ≠ .unavailable

theorem find_authorProofs :
    (f.authorProofs revision.revisionId revision).find? (proofVerifies ctx revision) = some content
      ↔ FirstIn (AuthorProof revision ctx) f.proofs content := by
  classical
  have hread (p : RevisionProof) : AuthorProof revision ctx p ↔
      p.revisionId = revision.revisionId ∧ p.kind = .content ∧ p.signerLabel = revision.authorHcpLabel
        ∧ some p.signerIdentity = revision.authorIdentity ∧ proofVerifies ctx revision p :=
    ⟨fun ⟨hid, hkind, hlabel, hident, hver⟩ => ⟨hid, hkind, hlabel, hident, hver⟩,
      fun ⟨hid, hkind, hlabel, hident, hver⟩ => ⟨hid, hkind, hlabel, hident, hver⟩⟩
  rw [firstIn_iff_find, authorProofs, proofsFor, find?_filter, find?_filter]
  simp only [hread, Bool.and_eq_true, decide_eq_true_eq, and_assoc]

theorem counterVerdict_trusted :
    counterVerdict revision content missing ctx counters = .trusted
      ↔ ∃ proof ∈ counters, backs ctx revision content proof := by
  cases counters with
  | nil => simp [counterVerdict]
  | cons first rest =>
    rw [counterVerdict, ← any_eq_true]
    split
    next h => simp only [h]
    next h => simp only [h, reduceCtorEq]

theorem countersignedBy_iff :
    (∃ proof ∈ f.countersBy revision.revisionId supervisor, backs ctx revision content proof)
      ↔ ∃ label ∈ supervisor, CountersignedBy f.proofs revision ctx content label := by
  simp only [countersBy, mem_flatMap, Option.mem_toList, mem_filter, proofsFor,
    Bool.and_eq_true, decide_eq_true_eq, backs, CountersignedBy]
  constructor
  · rintro ⟨proof, ⟨label, hlabel, ⟨hmem, hid, hkind⟩, hsigner⟩, hhash, hver⟩
    exact ⟨label, hlabel, proof, hmem, hid, hkind, hsigner, hhash, hver⟩
  · rintro ⟨label, hlabel, proof, hmem, hid, hkind, hsigner, hhash, hver⟩
    exact ⟨proof, ⟨label, hlabel, ⟨hmem, hid, hkind⟩, hsigner⟩, hhash, hver⟩

theorem supervisorVerdict_trusted (hreq : requirement ≠ .forbidden) :
    f.supervisorVerdict revision.revisionId revision requirement policy ctx content = .trusted
      ↔ Backed f.proofs revision policy ctx content requirement := by
  have hcounter (supervisor : Option String) (missing : TrustReason) :
      counterVerdict revision content missing ctx (f.countersBy revision.revisionId supervisor)
          = .trusted
        ↔ ∃ label ∈ supervisor, CountersignedBy f.proofs revision ctx content label :=
    counterVerdict_trusted.trans countersignedBy_iff
  cases requirement with
  | forbidden => exact absurd rfl hreq
  | authorSign => simp [supervisorVerdict, supervisorFor, Backed]
  | authorSignDirectParent =>
    exact hcounter _ _
  | authorSignBridgeOrOwner =>
    by_cases hbridge : ctx.revisionBridgeEvidence revision policy.scopeRoot = .none
    · simp [supervisorVerdict, supervisorFor, Backed, Bridged, hbridge, hcounter]
    · simp [supervisorVerdict, supervisorFor, Backed, Bridged, hbridge]
  | authorSignBridgeAndOwner =>
    by_cases hbridge : ctx.revisionBridgeEvidence revision policy.scopeRoot = .none
    · simp [supervisorVerdict, supervisorFor, Backed, Bridged, hbridge]
    · simp [supervisorVerdict, supervisorFor, Backed, Bridged, hbridge, hcounter]

theorem proofVerdict_trusted (hreq : requirement ≠ .forbidden) :
    f.proofVerdict revision.revisionId revision requirement policy ctx = .trusted
      ↔ ∃ content, FirstIn (AuthorProof revision ctx) f.proofs content
        ∧ Backed f.proofs revision policy ctx content requirement := by
  simp only [← find_authorProofs]
  rw [proofVerdict]
  cases hproofs : f.authorProofs revision.revisionId revision with
  | nil => simp
  | cons first rest =>
    cases hfind : (first :: rest).find? (proofVerifies ctx revision) with
    | none => simp [hfind]
    | some content => simp [hfind, supervisorVerdict_trusted hreq]

theorem revisionVerdict_of_permitted (h : Permitted revision policy ctx requirement) :
    f.revisionVerdict id revision revision.policyHash policy ctx
      = f.proofVerdict id revision requirement policy ctx := by
  simp [revisionVerdict, h.rule, h.allowed, h.generation]

theorem revisionVerdict_trusted (hhash : policy.policyHash = .ok policyHash)
    (h : f.revisionVerdict id revision policyHash policy ctx = .trusted) :
    ∃ requirement, Permitted revision policy ctx requirement
      ∧ f.proofVerdict id revision requirement policy ctx = .trusted := by
  unfold revisionVerdict at h
  split at h
  next => cases h
  next hpolicy =>
    rw [not_not] at hpolicy
    split at h
    next => cases h
    next requirement hrule =>
      split at h
      next => cases h
      next hallowed =>
        split at h
        next => cases h
        next hgen => exact ⟨requirement, ⟨hpolicy ▸ hhash, hrule, hallowed, hgen⟩, h⟩

/-- **The verdict `Trusted`**: the policy admits the author, and the first verifying content
proof has the backing the role asks for. -/
theorem evaluate_trusted_iff :
    f.evaluateRevisionTrust id policy ctx = .ok .trusted
      ↔ ∃ stored requirement content, f.get id = some stored
        ∧ Permitted stored.revision policy ctx requirement
        ∧ FirstIn (AuthorProof stored.revision ctx) f.proofs content
        ∧ Backed f.proofs stored.revision policy ctx content requirement := by
  constructor
  · intro h
    unfold evaluateRevisionTrust at h
    split at h
    next => cases h
    next stored hget =>
      obtain ⟨policyHash, hhash, h⟩ := try_ok h
      obtain ⟨-, rfl⟩ := RevisionGraph.get_some hget
      obtain ⟨requirement, hperm, hverdict⟩ := revisionVerdict_trusted hhash (Except.ok.inj h)
      obtain ⟨content, hfirst, hback⟩ := (proofVerdict_trusted hperm.allowed).mp hverdict
      exact ⟨stored, requirement, content, hget, hperm, hfirst, hback⟩
  · rintro ⟨stored, requirement, content, hget, hperm, hfirst, hback⟩
    obtain ⟨-, rfl⟩ := RevisionGraph.get_some hget
    have hverdict := (proofVerdict_trusted hperm.allowed).mpr ⟨content, hfirst, hback⟩
    simp only [evaluateRevisionTrust, hget, hperm.policyHash, except_ok_bind]
    rw [revisionVerdict_of_permitted hperm, ← hverdict]
    rfl

/-! ## §3. What the verdict reads. -/

omit [Crypto] in
theorem proofsFor_eq_filter (f : TrackedFile) (id : Digest) (kind : ProofKind) :
    f.proofsFor id kind
      = (f.proofs.filter (fun proof => proof.revisionId = id)).filter (fun p => p.kind = kind) := by
  rw [filter_filter, proofsFor]
  congr 1
  funext proof
  exact Bool.and_comm _ _

/-- Two files with the same stored revision and the same proofs for it give the same verdict. -/
theorem evaluate_congr (hget : f.get id = g.get id)
    (hproofs : f.proofs.filter (fun proof => proof.revisionId = id)
      = g.proofs.filter (fun proof => proof.revisionId = id)) :
    f.evaluateRevisionTrust id policy ctx = g.evaluateRevisionTrust id policy ctx := by
  have hfor (kind : ProofKind) : f.proofsFor id kind = g.proofsFor id kind := by
    rw [proofsFor_eq_filter, proofsFor_eq_filter, hproofs]
  simp only [evaluateRevisionTrust, revisionVerdict, proofVerdict, supervisorVerdict, authorProofs,
    countersBy, hget, hfor]

theorem Backed.mono (hsub : proofs ⊆ more) (h : Backed proofs revision policy ctx content requirement) :
    Backed more revision policy ctx content requirement := by
  have hcounter {label : String} (hc : CountersignedBy proofs revision ctx content label) :
      CountersignedBy more revision ctx content label := by
    obtain ⟨proof, hmem, hproof⟩ := hc
    exact ⟨proof, hsub hmem, hproof⟩
  cases requirement with
  | authorSign => trivial
  | authorSignDirectParent =>
    obtain ⟨parent, hparent, hc⟩ := h
    exact ⟨parent, hparent, hcounter hc⟩
  | authorSignBridgeOrOwner => exact h.imp_right hcounter
  | authorSignBridgeAndOwner => exact ⟨h.1, hcounter h.2⟩
  | forbidden => exact h

/-- **Growth never takes trust away**: with revisions and proofs added at the end, what was
`Trusted` still is. -/
theorem evaluate_append (hrevisions : g.revisions = f.revisions ++ more)
    (hproofs : g.proofs = f.proofs ++ proofs) (h : f.evaluateRevisionTrust id policy ctx = .ok .trusted) :
    g.evaluateRevisionTrust id policy ctx = .ok .trusted := by
  obtain ⟨stored, requirement, content, hget, hperm, hfirst, hback⟩ := evaluate_trusted_iff.mp h
  rw [evaluate_trusted_iff, get, hrevisions, hproofs]
  -- The chosen content proof is the first one that verifies, and nothing comes before it.
  exact ⟨stored, requirement, content, RevisionGraph.get_append_of_some hget, hperm,
    firstIn_append.mpr (.inl hfirst), hback.mono (subset_append_left _ _)⟩

/-! ## §4. The first verifying proof and the others. -/

section

variable (f : TrackedFile) (id : Digest) (policy : FilePolicy) (ctx : TrustContext)

/-- What the policy asks for, with nothing said about storage order: *some* verifying content
proof has the backing the role asks for. -/
def TrustedByPolicy : Prop :=
  ∃ stored requirement, ∃ content ∈ f.proofs, f.get id = some stored
    ∧ Permitted stored.revision policy ctx requirement
    ∧ AuthorProof stored.revision ctx content
    ∧ Backed f.proofs stored.revision policy ctx content requirement

/-- A backed content proof stands behind a verifying one that is not backed. -/
def Shadowed : Prop :=
  ∃ stored requirement first, ∃ content ∈ f.proofs, f.get id = some stored
    ∧ Permitted stored.revision policy ctx requirement
    ∧ FirstIn (AuthorProof stored.revision ctx) f.proofs first
    ∧ ¬ Backed f.proofs stored.revision policy ctx first requirement
    ∧ AuthorProof stored.revision ctx content
    ∧ Backed f.proofs stored.revision policy ctx content requirement

def Mixed : Prop :=
  ∃ stored requirement, ∃ backed ∈ f.proofs, ∃ bare ∈ f.proofs, f.get id = some stored
    ∧ Permitted stored.revision policy ctx requirement
    ∧ AuthorProof stored.revision ctx backed
    ∧ Backed f.proofs stored.revision policy ctx backed requirement
    ∧ AuthorProof stored.revision ctx bare
    ∧ ¬ Backed f.proofs stored.revision policy ctx bare requirement

end

theorem trustedByPolicy_of_evaluate (h : f.evaluateRevisionTrust id policy ctx = .ok .trusted) :
    f.TrustedByPolicy id policy ctx := by
  obtain ⟨stored, requirement, content, hget, hperm, hfirst, hback⟩ := evaluate_trusted_iff.mp h
  exact ⟨stored, requirement, content, hfirst.mem, hget, hperm, hfirst.holds, hback⟩

theorem Permitted.eq (ha : Permitted revision policy ctx a) (hb : Permitted revision policy ctx b) :
    a = b :=
  Option.mem_unique ha.rule hb.rule

/-- When the first verifying content proof is not backed, the revision is not `Trusted`. -/
theorem not_trusted_of_first (hget : f.get id = some stored)
    (hperm : Permitted stored.revision policy ctx requirement)
    (hfirst : FirstIn (AuthorProof stored.revision ctx) f.proofs first)
    (hbare : ¬ Backed f.proofs stored.revision policy ctx first requirement) :
    f.evaluateRevisionTrust id policy ctx ≠ .ok .trusted := by
  intro htrusted
  obtain ⟨stored', requirement', content, hget', hperm', hfirst', hback'⟩ :=
    evaluate_trusted_iff.mp htrusted
  obtain rfl : stored = stored' := Option.mem_unique hget hget'
  obtain rfl : first = content := hfirst.unique hfirst'
  exact hbare (hperm.eq hperm' ▸ hback')

theorem evaluate_of_not_shadowed (hshadow : ¬ f.Shadowed id policy ctx)
    (h : f.TrustedByPolicy id policy ctx) :
    f.evaluateRevisionTrust id policy ctx = .ok .trusted := by
  obtain ⟨stored, requirement, content, hmem, hget, hperm, hsigned, hback⟩ := h
  obtain ⟨first, hfirst⟩ := exists_firstIn hmem hsigned
  refine evaluate_trusted_iff.mpr ⟨stored, requirement, first, hget, hperm, hfirst, ?_⟩
  by_contra hbare
  exact hshadow ⟨stored, requirement, first, content, hmem, hget, hperm, hfirst, hbare, hsigned, hback⟩

theorem evaluate_perm (hmixed : ¬ f.Mixed id policy ctx) (hp : proofs.Perm f.proofs) :
    evaluateRevisionTrust { f with proofs } id policy ctx = .ok .trusted
      ↔ f.evaluateRevisionTrust id policy ctx = .ok .trusted := by
  constructor
  · intro h
    obtain ⟨stored, requirement, content, hget, hperm, hfirst, hback⟩ := evaluate_trusted_iff.mp h
    have hmem : content ∈ f.proofs := hp.subset hfirst.mem
    obtain ⟨first, hfirst'⟩ := exists_firstIn hmem hfirst.holds
    refine evaluate_trusted_iff.mpr ⟨stored, requirement, first, hget, hperm, hfirst', ?_⟩
    by_contra hbare
    exact hmixed ⟨stored, requirement, content, hmem, first, hfirst'.mem, hget, hperm,
      hfirst.holds, hback.mono hp.subset, hfirst'.holds, hbare⟩
  · intro h
    obtain ⟨stored, requirement, content, hget, hperm, hfirst, hback⟩ := evaluate_trusted_iff.mp h
    obtain ⟨first, hfirst'⟩ := exists_firstIn (hp.symm.subset hfirst.mem) hfirst.holds
    refine evaluate_trusted_iff.mpr ⟨stored, requirement, first, hget, hperm, hfirst', ?_⟩
    by_contra hbare
    exact hmixed ⟨stored, requirement, content, hfirst.mem, first, hp.subset hfirst'.mem, hget,
      hperm, hfirst.holds, hback, hfirst'.holds, fun hb => hbare (hb.mono hp.symm.subset)⟩

theorem Mixed.order_matters (h : f.Mixed id policy ctx) :
    (∃ proofs, proofs.Perm f.proofs ∧
        evaluateRevisionTrust { f with proofs } id policy ctx = .ok .trusted)
      ∧ ∃ proofs, proofs.Perm f.proofs ∧
        evaluateRevisionTrust { f with proofs } id policy ctx ≠ .ok .trusted := by
  obtain ⟨stored, requirement, good, hgood, bare, hbare, hget, hperm, hsigned, hback, hsigned',
    hunbacked⟩ := h
  have hfront : ∀ {p}, p ∈ f.proofs → (p :: f.proofs.erase p).Perm f.proofs :=
    fun hmem => (perm_cons_erase hmem).symm
  refine ⟨⟨_, hfront hgood, ?_⟩, _, hfront hbare, ?_⟩
  · exact evaluate_trusted_iff.mpr ⟨stored, requirement, good, hget, hperm, firstIn_cons hsigned,
      hback.mono (hfront hgood).symm.subset⟩
  · exact not_trusted_of_first (f := { f with proofs := _ }) hget hperm (firstIn_cons hsigned')
      fun hb => hunbacked (hb.mono (hfront hbare).subset)

/-- **The verdict against the policy's own words.**  `Trusted` always has what the policy asks
for.  The converse holds exactly when no backed content proof stands behind a verifying one that
is not backed, and the verdict is the same for every order of the proofs exactly when the
verifying content proofs are all backed or all not. -/
theorem evaluate_trusted_iff_exists (f : TrackedFile) (id : Digest) (policy : FilePolicy)
    (ctx : TrustContext) :
    ((f.evaluateRevisionTrust id policy ctx = .ok .trusted ↔ f.TrustedByPolicy id policy ctx)
        ↔ ¬ f.Shadowed id policy ctx)
      ∧ ((∀ proofs, proofs.Perm f.proofs →
          (evaluateRevisionTrust { f with proofs } id policy ctx = .ok .trusted
            ↔ f.evaluateRevisionTrust id policy ctx = .ok .trusted))
        ↔ ¬ f.Mixed id policy ctx) := by
  refine ⟨⟨?_, ?_⟩, ?_, fun hmixed _ hp => evaluate_perm hmixed hp⟩
  · rintro hiff ⟨stored, requirement, first, content, hmem, hget, hperm, hfirst, hbare, hsigned, hback⟩
    exact not_trusted_of_first hget hperm hfirst hbare
      (hiff.mpr ⟨stored, requirement, content, hmem, hget, hperm, hsigned, hback⟩)
  · exact fun hshadow => ⟨trustedByPolicy_of_evaluate, evaluate_of_not_shadowed hshadow⟩
  · intro hsame hmixed
    obtain ⟨⟨front, hfront, htrusted⟩, back, hbackPerm, hnot⟩ := hmixed.order_matters
    exact hnot ((hsame back hbackPerm).mpr ((hsame front hfront).mp htrusted))

end TrackedFile

end Evaluation

/-! ## §5. A reissued key. -/

namespace Sample

def ownerKey : Digest := .ofNat 32 0x8a88e3dd7409f195fd52db2d3cba5d72ca6709bf1d94121bf3748801b40f6f5c

def oldKey : Digest := .ofNat 32 0x8139770ea87d175f56a35466c34c7ecccb8d8a91b4ee37a25df60f5b8fc9b394

def newKey : Digest := .ofNat 32 0xed4928c628d1c2c6eae90338905995612959273a5c63f93636c14614ac8737d1

/-- A store that knows the owner's key, the author's key and the author's earlier key. -/
def keys : TrustContext where
  signingPublic identity label :=
    if identity = owner ∧ label = "M.S" then some ownerKey
    else if identity = author ∧ label = "M.S.2" then some newKey
    else none
  historicalSigningPublics identity label _ :=
    if identity = author ∧ label = "M.S.2" then [oldKey] else []
  bridgeEvidence _ := .none

def signedOld : RevisionProof :=
  proof rival .content author "M.S.2" none
    0x93e0ab361c39905919737a5875a899ad8625a78ba8cfe9071d99ccc9b046e8fd6f4f89422cd58d5d41ee50713951265afb1ec728312b6ec9b9515330b076e800

def signedNew : RevisionProof :=
  proof rival .content author "M.S.2" none
    0xa2c18f38aa306f94eeff3a54b7adcb48f235a830c559ed2f20c3b966ddcb727d5cac872b325724474d025bcdca85e86ff9021db77e7bd8b0589648b8084acd0d

def signedNewHash : Digest :=
  .ofNat 32 0xe84ae577126b12907ec969f01835dcd79c6446f7f73fabc557cad0b4bc348e0f

def backedNew : RevisionProof :=
  proof rival .countersignature owner "M.S" (some signedNewHash)
    0xf9278e52574975ed661b5ebd2187050297d09798dab901f2aeb4b039980ad2373762ee28c5fb632ef804c4b282bb520f726aa5498991b9c904d0b18b1136ed06

def contentMessage (stored : StoredRevision) (identity : Id16) : Bytes :=
  [fileRevisionDomain, fileId.bytes, stored.id.bytes, stored.revision.contentCommitment.bytes,
    identity.bytes, u64Bytes 1, policyHash.bytes].flatten

def rootPreimage : Digest := .ofNat 32 0x5d80be1bab18fd0a1afc6cc38776abc39c891e1832f83a956a3d0cafa3144140

def rivalPreimage : Digest :=
  .ofNat 32 0x5ab9b5d417b9de6e15ae727c0ebf67bf06f042490677f7cc3cd282d7a3c9b0bb

def counterPreimage : Digest :=
  .ofNat 32 0x2c66e21b306250cc38d1ae3e23dca2cb27589355fe0358a24d02e5d0ac1625fd

def signingHashes : List (Bytes × Digest) :=
  [(contentMessage root owner, rootPreimage), (contentMessage rival author, rivalPreimage),
    (signedRoot.signature.bytes, signedRootHash),
    (signedOld.signature.bytes,
      .ofNat 32 0x791a76cdc8e9dde1fef6bb6973a3c484a8047fb7fe45a9fd5b8094dac8df3e57),
    (signedNew.signature.bytes, signedNewHash),
    ([fileCountersignDomain, fileId.bytes, rival.id.bytes, author.bytes, signedNewHash.bytes,
      owner.bytes, bytesOf (hashLenPrefixed (utf8Bytes "M.S")), u64Bytes 1,
      policyHash.bytes].flatten, counterPreimage)]

def signed : List (Digest × Bytes × Signature) :=
  [(ownerKey, rootPreimage.bytes, signedRoot.signature),
    (oldKey, rivalPreimage.bytes, signedOld.signature),
    (newKey, rivalPreimage.bytes, signedNew.signature),
    (ownerKey, counterPreimage.bytes, backedNew.signature)]

@[reducible] def trustCrypto : Crypto := .known (hashes ++ signingHashes) signed

/-- The author signed twice, and the owner backed the second signature. -/
def resigned : TrackedFile := file [rival] [signedOld, signedNew, backedNew] [] []

end Sample

namespace TrackedFile

attribute [local instance] Sample.trustCrypto CharTable.ascii
open Sample

theorem resigned_trustedByPolicy :
    resigned.TrustedByPolicy rival.id Sample.policy Sample.keys := by
  refine ⟨rival, .authorSignDirectParent, signedNew, by decide +kernel,
    by decide +kernel, ⟨?_, ?_, ?_, ?_⟩, ⟨?_, ?_, ?_, ?_, ?_⟩, "M.S", by decide +kernel,
    backedNew, by decide +kernel, ?_, ?_, ?_, ?_, ?_⟩
  all_goals decide +kernel

/-- A verified file that has what the policy asks for and is denied, while the same proofs in
another order are trusted. -/
theorem evaluate_depends_on_order :
    verifyStructure resigned = .ok genesis ∧ resigned.TrustedByPolicy rival.id Sample.policy Sample.keys
      ∧ resigned.evaluateRevisionTrust rival.id Sample.policy Sample.keys
        = .ok (.denied .invalidCountersignature)
      ∧ (file [rival] [signedNew, signedOld, backedNew] []
          []).evaluateRevisionTrust rival.id Sample.policy Sample.keys = .ok .trusted := by
  refine ⟨?_, resigned_trustedByPolicy, ?_, ?_⟩
  all_goals decide +kernel

end TrackedFile

end KeyQuorum
