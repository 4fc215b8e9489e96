/-
  **SIGNATURES AND WHAT THEY COVER** (`signing.rs`, the tracked-file part).

  A signature covers the SHA-256 digest of a domain string and the fields it
  binds.  Each role signs under its own domain, so no signature can stand in
  for another role's.
-/
import KeyQuorum.Envelope

namespace KeyQuorum

open Foundation

def fileRevisionDomain : Bytes := utf8Bytes "KQ-FILE-REVISION-v1"

def fileCountersignDomain : Bytes := utf8Bytes "KQ-FILE-COUNTERSIGN-v1"

def fileFinalizeDomain : Bytes := utf8Bytes "KQ-FILE-FINALIZE-v1"

def fileCoauthorDomain : Bytes := utf8Bytes "KQ-FILE-COAUTHOR-v1"

def fileHistoryEventDomain : Bytes := utf8Bytes "KQ-FILE-HISTORY-EVENT-v1"

variable [Crypto]

/-- `verify_signature`: `verify_strict` under a well-formed key. -/
def verifySignature (publicKey : Digest) (message : Bytes) (signature : Signature) :
    Except Error Unit :=
  if !Crypto.validKey publicKey then .error .invalidPublicKey
  else if Crypto.verifyStrict publicKey message signature then .ok ()
  else .error .signatureVerificationFailed

/-- `sign`: with a 32-byte seed. -/
def sign (privateKey : Digest) (message : Bytes) : Signature := Crypto.signWith privateKey message

/-- `file_revision_preimage`: the author's content signature. Every field is fixed width. -/
def fileRevisionPreimage (fileId : Id16) (revisionId contentCommitment : Digest)
    (signerIdentity : Id16) (topologyGeneration : UInt64) (policyHash : Digest) : Digest :=
  sha256 [fileRevisionDomain, fileId.bytes, revisionId.bytes, contentCommitment.bytes,
    signerIdentity.bytes, u64Bytes topologyGeneration, policyHash.bytes].flatten

/-- What a signature that backs the author's one covers, under the domain of its role. -/
def backingPreimage (domain : Bytes) (fileId : Id16) (revisionId : Digest) (author : Id16)
    (authorSignatureHash : Digest) (signer : Id16) (signerLabel : String)
    (topologyGeneration : UInt64) (policyHash : Digest) : Except Error Digest := do
  let label ← hashLenPrefixed (utf8Bytes signerLabel)
  .ok (sha256 [domain, fileId.bytes, revisionId.bytes, author.bytes, authorSignatureHash.bytes,
    signer.bytes, label, u64Bytes topologyGeneration, policyHash.bytes].flatten)

section

variable (fileId : Id16) (revisionId : Digest) (author : Id16) (authorSignatureHash : Digest)

def fileCountersignPreimage (supervisor : Id16) (supervisorLabel : String)
    (topologyGeneration : UInt64) (policyHash : Digest) : Except Error Digest :=
  backingPreimage fileCountersignDomain fileId revisionId author authorSignatureHash supervisor
    supervisorLabel topologyGeneration policyHash

def fileCoauthorPreimage (coauthor : Id16) (coauthorLabel : String)
    (topologyGeneration : UInt64) (policyHash : Digest) : Except Error Digest :=
  backingPreimage fileCoauthorDomain fileId revisionId author authorSignatureHash coauthor
    coauthorLabel topologyGeneration policyHash

end

def fileFinalizePreimage (fileId : Id16) (revisionId : Digest) (finalizer : Id16)
    (finalizerLabel : String) (topologyGeneration : UInt64) (policyHash : Digest) :
    Except Error Digest := do
  let label ← hashLenPrefixed (utf8Bytes finalizerLabel)
  .ok (sha256 [fileFinalizeDomain, fileId.bytes, revisionId.bytes, finalizer.bytes, label,
    u64Bytes topologyGeneration, policyHash.bytes].flatten)

/-- `file_history_event_preimage`: no revision is tag `0`, a revision is `1 || id`. -/
def fileHistoryEventPreimage (fileId : Id16) (revisionId : Option Digest) (sequence : UInt64)
    (previousEventHash eventHash : Digest) : Digest :=
  let revision : Bytes :=
    match revisionId with
    | some id => 1 :: id.bytes
    | none => [0]
  sha256 [fileHistoryEventDomain, fileId.bytes, revision, u64Bytes sequence,
    previousEventHash.bytes, eventHash.bytes].flatten

end KeyQuorum
