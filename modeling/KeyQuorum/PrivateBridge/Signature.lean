/-
  **SIGNATURES OF A PRIVATE BRIDGE** (`bridge_sign_preimage` and
  `verify_bridge_signature` in `signing.rs`, `verify_with` in
  `bridge_proof.rs`, `verify_message` and `verify_artifact` in
  `private_bridge.rs`).

  A member signs with the key of the bridge and with its own.  What is
  signed is a hash of the fields one after the other.  The uid and the label
  of the signer go in without their lengths, so the same bytes can be cut in
  more than one way.
-/
import KeyQuorum.PrivateBridge.Rosters
import KeyQuorum.Keys
import KeyQuorum.FileHistory.History

namespace KeyQuorum.PrivateBridge

open List Foundation Letter TrackedFile

/-! ## §1. What is signed. -/

def signDomain : Bytes := utf8Bytes "KQBRIDGE-SIGN-v1"

/-- The arguments of `bridge_sign_preimage`. -/
structure SignInput where
  uid : String
  generation : UInt32
  bridgeSalt : Id16
  signatureSalt : Id16
  signerLabel : String
  signerPublicKey : Digest
  message : Bytes
  deriving DecidableEq

def SignInput.bytes (input : SignInput) : Bytes :=
  signDomain ++ (utf8Bytes input.uid ++ (u32Bytes input.generation ++ (input.bridgeSalt.bytes
    ++ (input.signatureSalt.bytes ++ (utf8Bytes input.signerLabel ++ (input.signerPublicKey.bytes
    ++ input.message))))))

def bridgeSignPreimage [Crypto] (input : SignInput) : Digest := sha256 input.bytes

/-- What the other preimages of `signing.rs` hash first. -/
def otherDomains : List Bytes :=
  [fileRevisionDomain, fileCountersignDomain, fileFinalizeDomain, fileCoauthorDomain,
    fileHistoryEventDomain] ++ ["KQ-FILE-BRIDGE-APPROVAL-v1", "KQ-RELAY-AUDIT-ANCHOR-v1",
    "KQ-RELAY-AUDIT-CHECKPOINT-v1", "KQ-RELAY-API-KEY-ISSUE-v1", "KQ-RELAY-BACKUP-v1",
    "KQ-RELAY-SETUP-MANIFEST-v1", "KQ-PROVIDER-RECOVERY-v1", "KQ-ERROR-REPORT-v1",
    "KQ-ACCOUNT-BRIDGE-v1"].map utf8Bytes

/-- The lengths that are not written: of the uid and of the signer's label. -/
def SignInput.sizes (input : SignInput) : Nat × Nat :=
  ((utf8Bytes input.uid).length, (utf8Bytes input.signerLabel).length)

theorem SignInput.eq_of_bytes {x y : SignInput} (hsizes : x.sizes = y.sizes) (h : x.bytes = y.bytes) :
    x = y := by
  obtain ⟨huid, hlabel⟩ := Prod.mk.inj hsizes
  obtain ⟨-, h⟩ := append_inj h rfl
  obtain ⟨huid, h⟩ := append_inj h huid
  obtain ⟨hgeneration, h⟩ := append_inj h (by simp [u32Bytes])
  obtain ⟨hsalt, h⟩ := append_inj h (by simp)
  obtain ⟨hsalt', h⟩ := append_inj h (by simp)
  obtain ⟨hlabel, h⟩ := append_inj h hlabel
  obtain ⟨hkey, hmessage⟩ := append_inj h (by simp)
  have hnumber := congrArg ofBe hgeneration
  unfold u32Bytes at hnumber
  rw [ofBe_beBytes_of_lt x.generation.toNat_lt, ofBe_beBytes_of_lt y.generation.toNat_lt] at hnumber
  cases x
  cases y
  simp only [SignInput.mk.injEq]
  exact ⟨utf8Bytes_inj huid, UInt32.toNat_inj.mp hnumber, FixedBytes.ext_bytes hsalt,
    FixedBytes.ext_bytes hsalt', utf8Bytes_inj hlabel, FixedBytes.ext_bytes hkey, hmessage⟩

/-- Inputs in which every byte is the letter `a`. -/
def SignInput.letters (sizes : Nat × Nat) (rest : Nat) : SignInput :=
  { uid := String.ofList (replicate sizes.1 'a'), generation := 0x61616161
    bridgeSalt := ⟨replicate 16 0x61, rfl⟩, signatureSalt := ⟨replicate 16 0x61, rfl⟩
    signerLabel := String.ofList (replicate sizes.2 'a'), signerPublicKey := ⟨replicate 32 0x61, rfl⟩
    message := replicate rest 0x61 }

theorem utf8Bytes_letters (n : Nat) : utf8Bytes (String.ofList (replicate n 'a')) = replicate n 0x61 := by
  unfold utf8Bytes
  rw [String.toByteArray_ofList]
  unfold List.utf8Encode
  rw [flatMap_replicate]
  have hchar : String.utf8EncodeChar 'a' = [0x61] := by decide
  rw [hchar]
  simp

theorem SignInput.bytes_letters (sizes : Nat × Nat) (rest : Nat) :
    (letters sizes rest).bytes = signDomain ++ replicate (sizes.1 + sizes.2 + 68 + rest) 0x61 := by
  have hgeneration : u32Bytes 0x61616161 = replicate 4 0x61 := by decide
  unfold bytes letters
  simp only [utf8Bytes_letters, hgeneration, replicate_append_replicate]
  congr 2
  omega

section Crypto

variable [Crypto]

/-- **When a bridge signature means one thing**: exactly between inputs in which the uids are of one
length and the labels of one length.  It never means what another preimage does. -/
theorem bridgeSignPreimage_means_iff (sizes sizes' : Nat × Nat) :
    ((∀ x y : SignInput, x.sizes = sizes → y.sizes = sizes' → CollisionFree [x.bytes, y.bytes] →
        bridgeSignPreimage x = bridgeSignPreimage y → x = y)
      ∧ ∀ x : SignInput, ∀ domain ∈ otherDomains, ∀ fields, CollisionFree [x.bytes, domain ++ fields] →
        bridgeSignPreimage x ≠ sha256 (domain ++ fields))
      ↔ sizes = sizes' := by
  constructor
  · rintro ⟨hinj, -⟩
    have hsize (sizes : Nat × Nat) (rest : Nat) : (SignInput.letters sizes rest).sizes = sizes := by
      unfold SignInput.sizes SignInput.letters
      simp only [utf8Bytes_letters, length_replicate]
    have hbytes : (SignInput.letters sizes (sizes'.1 + sizes'.2)).bytes
        = (SignInput.letters sizes' (sizes.1 + sizes.2)).bytes := by
      rw [SignInput.bytes_letters, SignInput.bytes_letters]
      congr 2
      omega
    have hsame := hinj _ _ (hsize sizes _) (hsize sizes' _) (by simp [CollisionFree, hbytes])
      (congrArg sha256 hbytes)
    rw [← hsize sizes (sizes'.1 + sizes'.2), hsame, hsize]
  · rintro rfl
    refine ⟨fun x y hx hy hfree heq => ?_, fun x domain hdomain fields hfree heq => ?_⟩
    · exact SignInput.eq_of_bytes (hx.trans hy.symm) (hfree _ (.head _) _ (.tail _ (.head _)) heq)
    · -- the third byte is `B` here and `-` there
      have hdash : ∀ domain ∈ otherDomains, domain[2]? = some 45 := by decide +kernel
      have hthird := congrArg (·[2]?) (hfree _ (.head _) _ (.tail _ (.head _)) heq)
      have hlong := (List.getElem?_eq_some_iff.mp (hdash domain hdomain)).1
      simp only [getElem?_append_left hlong, hdash domain hdomain] at hthird
      unfold SignInput.bytes at hthird
      rw [getElem?_append_left (by decide +kernel)] at hthird
      exact absurd hthird (by decide +kernel)

end Crypto

/-- A signature by `a` is one by `aa` as well. -/
theorem two_signers_one_preimage : ∃ x y : SignInput, x.signerLabel = "a" ∧ y.signerLabel = "aa"
    ∧ ∀ crypto : Crypto, @bridgeSignPreimage crypto x = @bridgeSignPreimage crypto y :=
  ⟨.letters (1, 1) 1, .letters (1, 2) 0, by decide, by decide, fun crypto =>
    congrArg (@sha256 crypto) (by decide +kernel)⟩

/-! ## §2. The two verifiers. -/

structure BridgeSignature where
  uid : String
  generation : UInt32
  bridgeSalt : Id16
  signatureSalt : Id16
  signerLabel : String
  signerPublicKey : Digest
  bridgeSignature : Signature
  personalSignature : Signature

structure MemberFact where
  label : String
  signingPublic : Option Digest

structure BridgeFacts where
  uid : String
  generation : UInt32
  salt : Id16
  bridgePublic : Digest
  destroyed : Bool
  members : List MemberFact

def BridgeFacts.member (facts : BridgeFacts) (label : String) : Option MemberFact :=
  facts.members.find? fun m => m.label = label

def Party.signingPublicKey (party : Party) : Option Digest :=
  match party.standing with
  | .member signing => some signing
  | .supervisor => none

def Bridge.proofMembers (bridge : Bridge) : List MemberFact :=
  (bridge.summary.filter fun party => party.role = .member).map fun party =>
    ⟨party.label, party.signingPublicKey⟩

def Bridge.proofFacts (bridge : Bridge) (uid : String) : BridgeFacts :=
  ⟨uid, bridge.generation, bridge.salt, bridge.publicKey, bridge.destroyed, bridge.proofMembers⟩

section Verify

variable [Crypto]

def verifyBridgeSignature (artifact : BridgeSignature) (bridgePublic signerPublic : Digest)
    (message : Bytes) : Except Error Unit :=
  if artifact.signerPublicKey ≠ signerPublic then .error .signatureVerificationFailed
  else do
    let preimage := bridgeSignPreimage ⟨artifact.uid, artifact.generation, artifact.bridgeSalt,
      artifact.signatureSalt, artifact.signerLabel, signerPublic, message⟩
    verifySignature bridgePublic preimage.bytes artifact.bridgeSignature
    verifySignature signerPublic preimage.bytes artifact.personalSignature

def verifyWith (facts : BridgeFacts) (verifierLabel : String) (challenge : Bytes)
    (artifact : BridgeSignature) (signerRegistryCheck : String → Digest → Except Error Unit) :
    Except Error Unit :=
  if facts.destroyed then .error .bridgeDestroyed
  else if artifact.uid ≠ facts.uid || artifact.generation ≠ facts.generation
      || artifact.bridgeSalt ≠ facts.salt then .error .bridgeGenerationMismatch
  else do
    let signer ← okOr (facts.member artifact.signerLabel) .notBridgeMember
    if (facts.member verifierLabel).isNone then .error .notBridgeMember
    else do
      let rosterSigning ← okOr signer.signingPublic .invalidBridge
      signerRegistryCheck artifact.signerLabel rosterSigning
      verifyBridgeSignature artifact facts.bridgePublic rosterSigning challenge

/-- The registry may not know the label, but must not know another key. -/
def registryAgrees (keys : Store) (label : String) (rosterSigning : Digest) : Except Error Unit :=
  match keys.signingPublicForLabel label with
  | .ok registered => if registered ≠ rosterSigning then .error .integrityCheckFailed else .ok ()
  | .error .nodeNotFound => .ok ()
  | .error e => .error e

def verifyMessage (db : Rosters) (keys : Store) (uid verifierLabel : String) (message : Bytes)
    (artifact : BridgeSignature) : Except Error Unit := do
  let bridge ← db.get uid
  verifyWith (bridge.proofFacts uid) verifierLabel message artifact (registryAgrees keys)

/-- `verify_artifact`: the labels of the members. -/
def verifyArtifact (db : Rosters) (keys : Store) (message : Bytes) (artifact : BridgeSignature) :
    Except Error (List String) := do
  let bridge ← db.get artifact.uid
  if bridge.destroyed then .error .bridgeDestroyed
  else if artifact.generation ≠ bridge.generation || artifact.bridgeSalt ≠ bridge.salt then
    .error .bridgeGenerationMismatch
  else do
    let signer ← okOr (bridge.summary.find? fun party => party.role = .member
      && party.label = artifact.signerLabel) .notBridgeMember
    let rosterSigning ← okOr signer.signingPublicKey .invalidBridge
    registryAgrees keys artifact.signerLabel rosterSigning
    verifyBridgeSignature artifact bridge.publicKey rosterSigning message
    .ok ((bridge.summary.filter fun party => party.role = .member).map Party.label)

omit [Crypto] in
theorem Bridge.member_proofFacts (bridge : Bridge) (uid label : String) :
    (bridge.proofFacts uid).member label = (bridge.summary.find? fun party => party.role = .member
      && party.label = label).map fun party => ⟨party.label, party.signingPublicKey⟩ := by
  show (bridge.proofMembers.find? _) = _
  unfold Bridge.proofMembers
  rw [find?_map, find?_filter]
  simp

/-- **The two verifiers agree**, errors included. -/
theorem verifyMessage_signer (db : Rosters) (keys : Store) (message : Bytes) (artifact : BridgeSignature) :
    verifyMessage db keys artifact.uid artifact.signerLabel message artifact
      = (verifyArtifact db keys message artifact).map fun _ => () := by
  unfold verifyMessage verifyArtifact
  cases db.get artifact.uid with
  | error e => rfl
  | ok bridge =>
    rw [except_ok_bind, except_ok_bind]
    unfold verifyWith
    rw [Bridge.member_proofFacts]
    unfold Bridge.proofFacts
    dsimp only
    by_cases hdead : bridge.destroyed
    · rw [if_pos hdead, if_pos hdead]
      rfl
    · rw [if_neg hdead, if_neg hdead]
      simp only [ne_eq, not_true_eq_false, decide_false, Bool.false_or]
      by_cases hstale : (decide ¬artifact.generation = bridge.generation
          || decide ¬artifact.bridgeSalt = bridge.salt) = true
      · rw [if_pos hstale, if_pos hstale]
        rfl
      · rw [if_neg hstale, if_neg hstale]
        cases bridge.summary.find? fun party => party.role = .member && party.label = artifact.signerLabel with
        | none => rfl
        | some signer =>
          simp only [Option.map_some, okOr, except_ok_bind, Option.isNone_some, Bool.false_eq_true, if_false]
          cases signer.signingPublicKey with
          | none => rfl
          | some rosterSigning =>
            simp only [except_ok_bind]
            cases registryAgrees keys artifact.signerLabel rosterSigning with
            | error e => rfl
            | ok _ => cases verifyBridgeSignature artifact bridge.publicKey rosterSigning message <;> rfl

end Verify

end KeyQuorum.PrivateBridge
