/-
  **SIGNATURES ATTACHED TO REVISIONS AND EVENTS** (`file_history/proof.rs`).

  A proof occupies a slot (revision, kind, signer label).  Nothing here is
  checked against keys; that is the trust evaluation's business.
-/
import KeyQuorum.FileHistory.Event
import KeyQuorum.FileHistory.Revision
import KeyQuorum.Foundation.Slots
import KeyQuorum.Signing

namespace KeyQuorum

open List Foundation

def maxProofsPerSlot : Nat := 8

inductive ProofKind where
  | content
  | countersignature
  | finalization
  | coAuthor
  deriving DecidableEq, Repr

/-- `kind as u8`. -/
def ProofKind.code : ProofKind → UInt8
  | .content => 1
  | .countersignature => 2
  | .finalization => 3
  | .coAuthor => 4

def ProofKind.fromU8 : UInt8 → Except Error ProofKind
  | 1 => .ok .content
  | 2 => .ok .countersignature
  | 3 => .ok .finalization
  | 4 => .ok .coAuthor
  | _ => .error .invalidTrackedFile

theorem ProofKind.fromU8_code (k : ProofKind) : fromU8 k.code = .ok k := by
  cases k <;> rfl

theorem ProofKind.fromU8_ok (h : fromU8 v = .ok k) : v = k.code := by
  unfold fromU8 at h
  split at h <;> cases h <;> rfl

theorem ProofKind.code_inj {a b : ProofKind} (h : a.code = b.code) : a = b := by
  have hb := ProofKind.fromU8_code b
  rw [← h, ProofKind.fromU8_code] at hb
  injection hb

/-- `RevisionProof`: a signature on a revision. -/
structure RevisionProof where
  revisionId : Digest
  kind : ProofKind
  signerIdentity : Id16
  signerLabel : String
  /-- Countersignatures and co-author proofs: hash of the author signature being backed. -/
  authorSignatureHash : Option Digest
  topologyGeneration : UInt64
  policyHash : Digest
  signature : Signature
  deriving DecidableEq, Repr

abbrev Slot := Digest × UInt8 × String

namespace RevisionProof

def slot (p : RevisionProof) : Slot := (p.revisionId, p.kind.code, p.signerLabel)

def sameSlot (p q : RevisionProof) : Bool :=
  p.revisionId = q.revisionId && p.kind = q.kind && p.signerLabel = q.signerLabel

theorem sameSlot_iff {p : RevisionProof} : p.sameSlot q ↔ p.slot = q.slot := by
  simp only [sameSlot, slot, Bool.and_eq_true, decide_eq_true_eq, Prod.mk.injEq, and_assoc]
  exact ⟨fun h => ⟨h.1, by rw [h.2.1], h.2.2⟩, fun h => ⟨h.1, ProofKind.code_inj h.2.1, h.2.2⟩⟩

/-! ## §1. Codec. -/

def encode (p : RevisionProof) : Except Error Bytes := do
  let signerLabel ← pushStr p.signerLabel
  let authorSignatureHash ← pushOptArray p.authorSignatureHash
  .ok [p.revisionId.bytes, [p.kind.code], p.signerIdentity.bytes, signerLabel,
    authorSignatureHash, pushU64 p.topologyGeneration, p.policyHash.bytes,
    p.signature.bytes].flatten

def decode : Reader Error RevisionProof := do
  let revisionId ← takeFixed 32
  let kindCode ← takeByte
  let kind ← Reader.lift (ProofKind.fromU8 kindCode)
  let signerIdentity ← takeFixed 16
  let signerLabel ← takeStr
  let authorSignatureHash ← takeOptArray 32
  let topologyGeneration ← takeU64
  let policyHash ← takeFixed 32
  let signature ← takeFixed 64
  pure {
    revisionId, kind, signerIdentity, signerLabel, authorSignatureHash, topologyGeneration
    policyHash, signature }

theorem decode_inverts : Inverts encode decode := by
  refine Spells.inverts (w := ?w) ?fields ?layout
  case fields =>
    unfold decode
    refine (takeFixed_inverts 32).field revisionId fun _ =>
      takeByte_inverts.codedField ProofKind.fromU8_code ProofKind.fromU8_ok kind fun _ =>
      (takeFixed_inverts 16).field signerIdentity fun _ =>
      takeStr_inverts.field signerLabel fun _ =>
      (takeOptArray_inverts 32).field authorSignatureHash fun _ =>
      takeU64_inverts.field topologyGeneration fun _ =>
      (takeFixed_inverts 32).field policyHash fun _ =>
      (takeFixed_inverts 64).field signature fun _ => .record fun p => ?_
    cases p
    grind
  case layout =>
    intro p
    simp [encode, andThen]

/-! ## §2. What the signature covers. -/

variable [Crypto]

def signatureHash (p : RevisionProof) : Digest := sha256 p.signature.bytes

/-- `preimage`: the digest the signature covers. A backing signature needs the author's. -/
def preimage (p : RevisionProof) (r : FileRevision) : Except Error Digest :=
  match p.kind, p.authorSignatureHash, r.authorIdentity with
  | .content, none, _ =>
    .ok (fileRevisionPreimage r.fileId r.revisionId r.contentCommitment p.signerIdentity
      p.topologyGeneration p.policyHash)
  | .countersignature, some authorHash, some author =>
    fileCountersignPreimage r.fileId r.revisionId author authorHash p.signerIdentity
      p.signerLabel p.topologyGeneration p.policyHash
  | .coAuthor, some authorHash, some author =>
    fileCoauthorPreimage r.fileId r.revisionId author authorHash p.signerIdentity
      p.signerLabel p.topologyGeneration p.policyHash
  | .finalization, none, _ =>
    fileFinalizePreimage r.fileId r.revisionId p.signerIdentity p.signerLabel
      p.topologyGeneration p.policyHash
  | _, _, _ => .error .invalidTrackedFile

end RevisionProof

/-! ## §3. Event proofs. -/

/-- `EventProof`: a signature on an event. -/
structure EventProof where
  sequence : UInt64
  signerIdentity : Id16
  signerLabel : String
  signature : Signature
  deriving DecidableEq, Repr

namespace EventProof

def encode (p : EventProof) : Except Error Bytes := do
  let signerLabel ← pushStr p.signerLabel
  .ok [pushU64 p.sequence, p.signerIdentity.bytes, signerLabel, p.signature.bytes].flatten

def decode : Reader Error EventProof := do
  let sequence ← takeU64
  let signerIdentity ← takeFixed 16
  let signerLabel ← takeStr
  let signature ← takeFixed 64
  pure { sequence, signerIdentity, signerLabel, signature }

theorem decode_inverts : Inverts encode decode := by
  refine Spells.inverts (w := ?w) ?fields ?layout
  case fields =>
    unfold decode
    refine takeU64_inverts.field sequence fun _ =>
      (takeFixed_inverts 16).field signerIdentity fun _ =>
      takeStr_inverts.field signerLabel fun _ =>
      (takeFixed_inverts 64).field signature fun _ => .record fun p => ?_
    cases p
    grind
  case layout =>
    intro p
    simp [encode, andThen]

end EventProof

/-- `event_preimage`: the digest an event proof signs. -/
def eventPreimage [Crypto] (fileId : Id16) (event : HistoryEvent) : Digest :=
  fileHistoryEventPreimage fileId event.revisionId event.sequence event.previousEventHash event.eventHash

end KeyQuorum
