/-
  **TRUST ACROSS AN IMPORT** (`merge_history` against
  `evaluate_revision_trust`).

  An import adds proofs at the end of the list, one slot (revision, role,
  signer label) at a time: not one whose signature bytes the slot already
  holds, and not one more than `MAX_PROOFS_PER_SLOT`.
-/
import KeyQuorum.FileHistory.Trust
import KeyQuorum.FileHistory.Union

namespace KeyQuorum

open Foundation

namespace TrackedFile

/-! ## §1. The proofs that arrive. -/

/-- An incoming proof gets into its slot: the local slot does not hold its signature, and still has
room after the new ones that come before it. -/
def Arrives (a b : TrackedFile) (proof : RevisionProof) : Prop :=
  Slots.GetsIn RevisionProof.slot RevisionProof.signature maxProofsPerSlot a.proofs b.proofs proof

instance (a b : TrackedFile) (proof : RevisionProof) : Decidable (a.Arrives b proof) :=
  inferInstanceAs (Decidable (Slots.GetsIn _ _ _ _ _ _))

def arrivals (a b : TrackedFile) : List RevisionProof :=
  b.proofs.filter (fun proof => a.Arrives b proof)

section ImportTrust

variable [Crypto] [CharTable] {a b a' : TrackedFile} {result : HistoryMerge}

theorem Imported.proofs_eq_arrivals (h : Imported a b result a') :
    a'.proofs = a.proofs ++ a.arrivals b := by
  rw [h.proofs]
  congr 1
  exact Slots.admitted_eq_filter h.importable.wellFormed.slots h.importable.otherWellFormed.slots

theorem Imported.get_eq (h : Imported a b result a') {id : Digest}
    (hget : b.get id = some stored) : a'.get id = some stored := by
  obtain ⟨hmem, rfl⟩ := RevisionGraph.get_some hget
  exact RevisionGraph.get_of_mem (fun _ hs _ ht hid => h.wellFormed.parentsFirst.key_inj hs ht hid)
    (h.mem_revisions.mpr (.inr hmem))

/-! ## §2. Nothing trusted is lost. -/

variable {rng : Nat → Id16} {context : ImportContext} {id : Digest} {policy : FilePolicy}
  {ctx : TrustContext}

/-- **An import never revokes trust.**  Its proofs come after those already held, so the first
verifying content proof stays the first, with the countersignatures that back it. -/
theorem mergeHistory_keeps_trust (hmerge : mergeHistory rng b context a = (.ok result, a'))
    (htrusted : a.evaluateRevisionTrust id policy ctx = .ok .trusted) :
    a'.evaluateRevisionTrust id policy ctx = .ok .trusted :=
  evaluate_append (mergeHistory_ok hmerge).revisions (mergeHistory_ok hmerge).proofs htrusted

/-! ## §3. What is trusted there. -/

section

omit [CharTable]

/-- The content proof an import leaves to be judged: the first verifying one held here, or, when
none is, the first verifying one to arrive. -/
def Deciding (a b : TrackedFile) (revision : FileRevision) (ctx : TrustContext)
    (content : RevisionProof) : Prop :=
  FirstIn (AuthorProof revision ctx) a.proofs content
    ∨ (∀ proof ∈ a.proofs, ¬ AuthorProof revision ctx proof)
      ∧ FirstIn (fun proof => a.Arrives b proof ∧ AuthorProof revision ctx proof) b.proofs content

/-- That content proof has the backing its role asks for among the proofs held here and those that
arrive. -/
def CarriesTrust (a b : TrackedFile) (id : Digest) (policy : FilePolicy) (ctx : TrustContext) :
    Prop :=
  ∀ stored requirement, b.get id = some stored →
    policy.requirementFor stored.revision.authorHcpLabel = some requirement →
    ∃ content, Deciding a b stored.revision ctx content
      ∧ Backed (a.proofs ++ a.arrivals b) stored.revision policy ctx content requirement

theorem deciding_iff :
    FirstIn (AuthorProof revision ctx) (a.proofs ++ a.arrivals b) content
      ↔ Deciding a b revision ctx content := by
  rw [firstIn_append, arrivals, firstIn_filter, Deciding]
  simp

end

/-- **When an import brings trust along.**  A revision `Trusted` in the incoming copy is `Trusted`
here afterwards exactly when the content proof left to be judged is backed by what is held here
and what arrives. -/
theorem mergeHistory_brings_trust_iff (hmerge : mergeHistory rng b context a = (.ok result, a'))
    (htrusted : b.evaluateRevisionTrust id policy ctx = .ok .trusted) :
    a'.evaluateRevisionTrust id policy ctx = .ok .trusted ↔ a.CarriesTrust b id policy ctx := by
  have himp := mergeHistory_ok hmerge
  obtain ⟨stored, requirement, _, hget, hperm, -, -⟩ := evaluate_trusted_iff.mp htrusted
  -- both verdicts read the same stored revision, so they differ in the proofs only
  rw [evaluate_trusted_iff, himp.proofs_eq_arrivals, himp.get_eq hget]
  simp only [deciding_iff, CarriesTrust]
  constructor
  · rintro ⟨stored', requirement', content, hstored', hperm', hdeciding, hback⟩ s r hs hr
    obtain rfl : stored = stored' := Option.some.inj hstored'
    obtain rfl : stored = s := Option.mem_unique hget hs
    obtain rfl : requirement' = r := Option.mem_unique hperm'.rule hr
    exact ⟨content, hdeciding, hback⟩
  · intro hcarries
    obtain ⟨content, hdeciding, hback⟩ := hcarries stored requirement hget hperm.rule
    exact ⟨stored, requirement, content, rfl, hperm, hdeciding, hback⟩

end ImportTrust

end TrackedFile

/-! ## §4. A signed copy and an altered one. -/

namespace Sample

@[reducible] def importTrustCrypto : Crypto :=
  .known (hashes ++ signingHashes ++ importHashes) signed

def signedCopy : TrackedFile := file [root] [signedRoot] [] []

/-- The owner's proof with another generation: the same signature bytes, which no longer verify. -/
def alteredCopy : TrackedFile := file [root] [{ signedRoot with topologyGeneration := 2 }] [] []

end Sample

namespace TrackedFile

attribute [local instance] Sample.importTrustCrypto CharTable.ascii
open Sample

theorem mergeHistory_keeps_trust_sample :
    ∃ a', mergeHistory importIds rightCopy importer signedCopy = (.ok ⟨.remoteAhead, 1, 0⟩, a')
      ∧ a'.evaluateRevisionTrust root.id Sample.policy Sample.keys = .ok .trusted := by
  have hmerge : mergeHistory importIds rightCopy importer signedCopy
      = (.ok ⟨.remoteAhead, 1, 0⟩, (mergeHistory importIds rightCopy importer
        signedCopy).2) := Op.run_eq (by decide +kernel)
  exact ⟨_, hmerge, mergeHistory_keeps_trust hmerge (by decide +kernel)⟩

theorem mergeHistory_brings_trust_sample :
    ∃ a', mergeHistory importIds signedCopy importer
          (file [root] [] [] []) = (.ok ⟨.identical, 0, 1⟩, a')
      ∧ a'.evaluateRevisionTrust root.id Sample.policy Sample.keys = .ok .trusted
      ∧ (file [root] [] [] []).CarriesTrust signedCopy root.id Sample.policy Sample.keys := by
  have hmerge : mergeHistory importIds signedCopy importer
      (file [root] [] [] []) = (.ok ⟨.identical, 0, 1⟩, (mergeHistory importIds
        signedCopy importer (file [root] [] [] [])).2) :=
    Op.run_eq (by decide +kernel)
  have htrusted : (mergeHistory importIds signedCopy importer
      (file [root] [] [] [])).2.evaluateRevisionTrust root.id Sample.policy
        Sample.keys = .ok .trusted := by decide +kernel
  exact ⟨_, hmerge, htrusted, (mergeHistory_brings_trust_iff hmerge (by decide +kernel)).mp htrusted⟩

/-- A copy with an altered proof verifies, and an import does not bring the genuine one. -/
theorem altered_proof_blocks_import :
    (∃ root, verifyStructure alteredCopy = .ok root)
      ∧ signedCopy.evaluateRevisionTrust root.id Sample.policy Sample.keys = .ok .trusted
      ∧ mergeHistory importIds signedCopy importer alteredCopy = (.ok ⟨.identical, 0, 0⟩, alteredCopy)
      ∧ alteredCopy.evaluateRevisionTrust root.id Sample.policy Sample.keys
        = .ok (.denied .generationMismatch) := by
  refine ⟨⟨genesis, ?_⟩, ?_, ?_, ?_⟩
  all_goals decide +kernel

end TrackedFile

end KeyQuorum
