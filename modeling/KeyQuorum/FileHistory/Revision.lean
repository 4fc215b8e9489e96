/-
  **IMMUTABLE REVISIONS** (`file_history/revision.rs`).

  `revision_id = SHA-256("KQ-FILE-REVISION-ID-v1" || body)`; the body names
  the parents, so a revision cannot be re-parented without changing its id.
  A stored revision keeps its payload until the content is destroyed.
-/
import KeyQuorum.FileHistory.Codec
import KeyQuorum.FileHistory.Label

namespace KeyQuorum

open List Foundation

def revisionIdDomain : Bytes := utf8Bytes "KQ-FILE-REVISION-ID-v1"

def contentDomain : Bytes := utf8Bytes "KQ-FILE-CONTENT-v1"

/-! ## §1. Types. -/

structure NewRevision where
  parentRevisionIds : List Digest
  userLabel : Option String
  authorIdentity : Option Id16
  authorHcpLabel : String
  createdAtUtc : String
  topologyGeneration : UInt64
  policyHash : Digest
  deriving DecidableEq, Repr

/-- A revision's metadata; `revisionId` commits to all the rest. -/
structure FileRevision where
  revisionId : Digest
  fileId : Id16
  parentRevisionIds : List Digest
  contentCommitment : Digest
  generatedLabel : String
  userLabel : Option String
  authorIdentity : Option Id16
  authorHcpLabel : String
  createdAtUtc : String
  topologyGeneration : UInt64
  policyHash : Digest
  deriving DecidableEq, Repr

/-- A revision with the bytes it commits to, `none` once they were destroyed. -/
structure StoredRevision where
  revision : FileRevision
  payload : Option Bytes
  deriving DecidableEq, Repr

def StoredRevision.id (stored : StoredRevision) : Digest := stored.revision.revisionId

def StoredRevision.parents (stored : StoredRevision) : List Digest :=
  stored.revision.parentRevisionIds

/-! ## §2. Codec. -/

namespace FileRevision

/-- `FileRevision::body`: every field except `revision_id`. -/
def body (r : FileRevision) : Except Error Bytes := do
  let parents ← pushList 2 (fun p : Digest => .ok p.bytes) r.parentRevisionIds
  let generatedLabel ← pushStr r.generatedLabel
  let userLabel ← pushOptStr r.userLabel
  let authorIdentity ← pushOptArray r.authorIdentity
  let authorHcpLabel ← pushStr r.authorHcpLabel
  let createdAtUtc ← pushStr r.createdAtUtc
  .ok [r.fileId.bytes, parents, r.contentCommitment.bytes, generatedLabel, userLabel,
    authorIdentity, authorHcpLabel, createdAtUtc, pushU64 r.topologyGeneration,
    r.policyHash.bytes].flatten

def encode (r : FileRevision) : Except Error Bytes := do
  let body ← r.body
  .ok [body, r.revisionId.bytes].flatten

def decode : Reader Error FileRevision := do
  let fileId ← takeFixed 16
  let parentRevisionIds ← takeList 2 (takeFixed 32)
  let contentCommitment ← takeFixed 32
  let generatedLabel ← takeStr
  let userLabel ← takeOptStr
  let authorIdentity ← takeOptArray 16
  let authorHcpLabel ← takeStr
  let createdAtUtc ← takeStr
  let topologyGeneration ← takeU64
  let policyHash ← takeFixed 32
  let revisionId ← takeFixed 32
  pure {
    revisionId, fileId, parentRevisionIds, contentCommitment, generatedLabel, userLabel
    authorIdentity, authorHcpLabel, createdAtUtc, topologyGeneration, policyHash }

theorem decode_inverts : Inverts encode decode := by
  refine Spells.inverts (w := ?w) ?fields ?layout
  case fields =>
    unfold decode
    refine (takeFixed_inverts 16).field fileId fun _ =>
      (takeList_inverts 2 (takeFixed_inverts 32)).field parentRevisionIds fun _ =>
      (takeFixed_inverts 32).field contentCommitment fun _ =>
      takeStr_inverts.field generatedLabel fun _ =>
      takeOptStr_inverts.field userLabel fun _ =>
      (takeOptArray_inverts 16).field authorIdentity fun _ =>
      takeStr_inverts.field authorHcpLabel fun _ =>
      takeStr_inverts.field createdAtUtc fun _ =>
      takeU64_inverts.field topologyGeneration fun _ =>
      (takeFixed_inverts 32).field policyHash fun _ =>
      (takeFixed_inverts 32).field revisionId fun _ => .record fun r => ?_
    cases r
    grind
  case layout =>
    intro r
    simp [encode, body, andThen]

theorem eq_of_body_eq {x y : FileRevision} (hx : x.body = .ok bytes) (hy : y.body = .ok bytes)
    (hid : x.revisionId = y.revisionId) : x = y := by
  have hex : x.encode = .ok [bytes, x.revisionId.bytes].flatten := by simp [encode, hx]
  have hey : y.encode = .ok [bytes, x.revisionId.bytes].flatten := by simp [encode, hy, hid]
  exact (decode_inverts.injective hex hey (rfl : _ ++ [] = _ ++ [])).1

end FileRevision

namespace StoredRevision

/-- `StoredRevision::encode`: the revision, then `1 payload` or `0`. -/
def encode (stored : StoredRevision) : Except Error Bytes := do
  let revision ← stored.revision.encode
  let payload ← pushOpt pushLenPrefixedU32 stored.payload
  .ok [revision, payload].flatten

/-- `StoredRevision::decode`; version 4 had no flag and always carried the payload. -/
def decode (version : UInt8) : Reader Error StoredRevision := do
  let revision ← FileRevision.decode
  let payload ←
    if version < 5 then do
      let bytes ← bad takeLenPrefixedU32
      pure (some bytes)
    else takeOpt (bad takeLenPrefixedU32)
  pure { revision, payload }

theorem decode_inverts (hv : ¬ version < 5) : Inverts encode (decode version) := by
  refine Spells.inverts (w := ?w) ?fields ?layout
  case fields =>
    simp only [decode, if_neg hv]
    refine FileRevision.decode_inverts.field revision fun _ =>
      (takeOpt_inverts (bad_inverts takeLenPrefixedU32_inverts)).field payload fun _ =>
      .record fun stored => ?_
    cases stored
    grind
  case layout =>
    intro stored
    simp [encode, andThen]

end StoredRevision

/-! ## §3. Hashes. -/

section Hashes

variable [Crypto]

/-- `content_commitment`: bound to the file, so it is no global fingerprint. -/
def contentCommitment (fileId : Id16) (payload : Bytes) : Digest :=
  sha256 [contentDomain, fileId.bytes, payload].flatten

namespace FileRevision

def computeId (r : FileRevision) : Except Error Digest := do
  let body ← r.body
  .ok (sha256 (revisionIdDomain ++ body))

variable [CharTable]

def create (fileId : Id16) (logicalName : String) (payload : Bytes) (new : NewRevision) :
    Except Error FileRevision := do
  let generated ← KeyQuorum.generatedLabel logicalName new.createdAtUtc new.authorHcpLabel
  let revision : FileRevision := {
    revisionId := FixedBytes.zero 32
    fileId
    parentRevisionIds := new.parentRevisionIds
    contentCommitment := KeyQuorum.contentCommitment fileId payload
    generatedLabel := generated
    userLabel := new.userLabel
    authorIdentity := new.authorIdentity
    authorHcpLabel := new.authorHcpLabel
    createdAtUtc := new.createdAtUtc
    topologyGeneration := new.topologyGeneration
    policyHash := new.policyHash }
  let id ← revision.computeId
  .ok { revision with revisionId := id }

def generatedLabelIsConsistent (r : FileRevision) : Bool :=
  labelIsConsistent r.generatedLabel r.createdAtUtc r.authorHcpLabel

/-- A created revision belongs to the file, its id and its label check out, and it commits to the
payload it was made from. -/
theorem create_ok {fileId : Id16} (h : create fileId name payload new = .ok r) :
    r.fileId = fileId ∧ r.computeId = .ok r.revisionId ∧ r.generatedLabelIsConsistent ∧
      r.parentRevisionIds = new.parentRevisionIds ∧
      r.contentCommitment = KeyQuorum.contentCommitment fileId payload := by
  obtain ⟨generated, hgen, h⟩ := try_ok h
  obtain ⟨id, hid, h⟩ := try_ok h
  cases h
  -- the body does not read `revision_id`, so the id is the hash of the finished revision
  exact ⟨rfl, hid, generatedLabel_consistent hgen, rfl, rfl⟩

end FileRevision

end Hashes

end KeyQuorum
