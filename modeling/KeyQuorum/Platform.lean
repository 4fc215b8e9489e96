/-
  **WHAT THE PROGRAM RESTS ON.**

  The crate calls four things it does not define: SHA-256, Ed25519, sealed
  boxes and the Unicode tables behind `char::is_alphanumeric` and
  `char::is_whitespace`.
  They enter the model as class parameters, so every theorem holds whatever
  they compute; a statement that needs a property of them (no collisions
  among given messages, say) takes it as a hypothesis of its own.
-/
import KeyQuorum.Foundation.Op

namespace KeyQuorum

open Foundation

/-- `error::Error`, the variants the modelled code returns. -/
inductive Error where
  | database
  | invalidTrackedFile
  | bundleFieldTooLarge
  | fileExpired
  | invalidBridgePackage
  | invalidPublicKey
  | signatureVerificationFailed
  | integrityCheckFailed
  | expiresAtInPast
  | quorumNotMet
  | invalidQuorumThreshold
  | invalidTreeSpec
  | keyRevoked
  | wrongKeyType
  | nodeNotFound
  | duplicateNodeLabel
  | invalidBridge
  | bridgeNotWhitelisted
  | bridgeNotFound
  | cannotEvict
  | cannotAddLeaf
  | shareShapeMismatch
  | treeNotFound
  | stalePublicTree
  | invalidDevice
  | custodyViolation
  | physicalDevicesNotMet
  | unlockApprovalRequired
  | ghostDenied
  | io
  | ioNotFound
  | invalidPath
  | invalidPassword
  | invalidSlot
  | transferDenied
  | identityConflict
  | transferReplay
  | transferIncomplete
  | bridgeDestroyed
  | bridgeGenerationMismatch
  | sealedKeyNotHeld
  | notBridgeMember
  | usage
  | outboxFull
  | untrustedRecipient
  | outboxItemRefused
  | outboxNotEmpty
  | exchangeOutOfOrder (missing : String)
  | invalidInboxPage
  | relayRequest
  | invalidApiKey
  | invalidApiKeyRequest
  | apiKeyExpired
  | apiKeyRevoked
  | apiKeyScopeDenied
  | apiKeyNotFound
  | invalidLicence
  | licenceNotFound
  | customerNotFound
  | keyNotAssigned
  | licenceNotActive
  | deliveryRecipientMissing
  | deliveryNotCollectable
  | pinNotSet
  | pinLocked
  | pinMismatch
  | invalidPin
  deriving DecidableEq, Repr

/-- `[u8; 16]`: file, event and person ids. -/
abbrev Id16 := FixedBytes 16

/-- `[u8; 32]`: hashes, revision ids, keys and seeds. -/
abbrev Digest := FixedBytes 32

/-- `[u8; 64]`: an Ed25519 signature. -/
abbrev Signature := FixedBytes 64

/-- The hash and the signature scheme (crates `sha2` and `ed25519_dalek`). -/
class Crypto where
  /-- SHA-256 of everything fed to the hasher. -/
  sha256 : Bytes → Digest
  /-- `SigningKey::from_bytes(seed).sign(message)`. -/
  signWith : Digest → Bytes → Signature
  /-- Whether `VerifyingKey::from_bytes` accepts the bytes. -/
  validKey : Digest → Bool
  /-- `VerifyingKey::verify_strict`. -/
  verifyStrict : Digest → Bytes → Signature → Bool

export Crypto (sha256)

/-- The scheme as far as a table knows it: the digests of the listed messages, and the listed
(key, message, signature) triples as those that verify. -/
@[reducible] def Crypto.known (hashes : List (Bytes × Digest)) (signed : List (Digest × Bytes × Signature)) :
    Crypto where
  sha256 message :=
    ((hashes.find? (fun entry => entry.1 = message)).map Prod.snd).getD (FixedBytes.zero 32)
  signWith _ _ := FixedBytes.zero 64
  validKey key := signed.any (fun entry => entry.1 = key)
  verifyStrict key message signature := signed.any (fun entry => entry = (key, message, signature))

/-- Anonymous sealed boxes (crates `crypto_box` and `x25519_dalek`). -/
class SealedBoxes where
  /-- `PublicKey::seal`, with the randomness it draws. -/
  sealWith : Digest → Nat → Bytes → Bytes
  /-- `SecretKey::unseal`. -/
  unsealWith : Digest → Bytes → Option Bytes
  /-- `is_weak_x25519_public_key`. -/
  weakKey : Digest → Bool

/-- Boxes that name their key and their seed. -/
@[reducible] def SealedBoxes.toy : SealedBoxes where
  sealWith key seed payload := key.bytes ++ (beBytes 16 seed ++ payload)
  unsealWith secret sealed := if sealed.take 32 = secret.bytes then some (sealed.drop 48) else none
  weakKey _ := false

/-- The Unicode tables of `char`. -/
class CharTable where
  /-- `char::is_alphanumeric`. -/
  isAlphanumeric : Char → Bool
  /-- `char::is_whitespace`. -/
  isWhitespace : Char → Bool
  /-- On ASCII the alphanumeric characters are the letters and digits. -/
  isAlphanumeric_ascii : ∀ c : Char, c.val < 128 → isAlphanumeric c = c.isAlphanum

/-- Tables for ASCII text. -/
@[reducible] def CharTable.ascii : CharTable where
  isAlphanumeric c := c.isAlphanum
  isWhitespace c := c = ' ' || (9 ≤ c.toNat && c.toNat ≤ 13)
  isAlphanumeric_ascii _ _ := rfl

end KeyQuorum
