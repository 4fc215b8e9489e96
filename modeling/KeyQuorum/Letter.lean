/-
  **THE SEALED OUTER ENVELOPE** (`envelope.rs`, from `seal` to `open`, for
  the format `KQPB`).

  Outside is a routing slip: magic, version, kind, the recipient's public
  key and a length.  Inside is a letter sealed to that key.  Sealed boxes
  are a parameter, like the hash and the signatures.
-/
import KeyQuorum.Container

namespace KeyQuorum

open List Foundation

def SealedBoxes.Genuine [SealedBoxes] : Prop :=
  ∀ key seed payload secret found,
    SealedBoxes.unsealWith secret (SealedBoxes.sealWith key seed payload) = some found → found = payload

namespace Letter

/-! ## §1. Kinds. -/

def kindInvite : UInt8 := 1

def kindRotate : UInt8 := 2

def kindDestroy : UInt8 := 3

def kindSupervisor : UInt8 := 4

def kindDeviceRelocate : UInt8 := 11

def kindDeviceRelocateAck : UInt8 := 12

/-! ## §2. Sealing and opening. -/

/-- `PACKAGE.magic`. -/
def magic : Bytes := utf8Bytes "KQPB"

/-- `PACKAGE.version`. -/
def version : UInt8 := 2

/-- `seal`; `seed` is the randomness of the box. -/
def sealTo [SealedBoxes] (kind : UInt8) (recipient : Digest) (seed : Nat) (payload : Bytes) :
    Except Error Bytes :=
  if SealedBoxes.weakKey recipient then .error .invalidPublicKey
  else do
    let letter ← pushLenPrefixedU32 (SealedBoxes.sealWith recipient seed payload)
    .ok (magic ++ ([version] ++ ([kind] ++ (recipient.bytes ++ letter))))

def readOuter : Reader Error (UInt8 × Digest × Bytes) := do
  let found ← takeN 4
  Reader.require (found = magic) .invalidBridgePackage
  let foundVersion ← takeU8
  Reader.require (foundVersion = version) .invalidBridgePackage
  let kind ← takeU8
  let recipient ← takeArray 32
  let letter ← takeLenPrefixedU32
  pure (kind, recipient, letter)

def parseOuter (bytes : Bytes) : Except Error (UInt8 × Digest × Bytes) := do
  let (outer, rest) ← readOuter bytes
  if rest.isEmpty then .ok outer else .error .invalidBridgePackage

/-- `open`: the kind, the public key of the routing slip, and the letter. -/
def openWith [SealedBoxes] (bytes : Bytes) (recipientSecret : Digest) :
    Except Error (UInt8 × Digest × Bytes) := do
  let (kind, recipient, letter) ← parseOuter bytes
  let payload ← okOr (SealedBoxes.unsealWith recipientSecret letter) .invalidBridgePackage
  .ok (kind, recipient, payload)

theorem sealTo_ok [SealedBoxes] (h : sealTo kind recipient seed payload = .ok bytes) :
    ∃ letter, pushLenPrefixedU32 (SealedBoxes.sealWith recipient seed payload) = .ok letter
      ∧ bytes = magic ++ ([version] ++ ([kind] ++ (recipient.bytes ++ letter))) := by
  obtain ⟨-, h⟩ := else_ok h
  obtain ⟨letter, hletter, h⟩ := try_ok h
  exact ⟨letter, hletter, (Except.ok.inj h).symm⟩

theorem readOuter_reads (h : pushLenPrefixedU32 box = .ok letter) :
    Reads readOuter (magic ++ ([version] ++ ([kind] ++ (recipient.bytes ++ letter))))
      (kind, recipient, box) := by
  have hmagic : Reads (takeN 4 : Reader Error Bytes) magic magic := takeN_reads magic
  refine hmagic.bind (.require_bind (by simp) ?_)
  refine (takeU8_inverts.reads rfl).bind (.require_bind (by simp) ?_)
  refine (takeU8_inverts.reads rfl).bind (((takeArray_inverts 32).reads rfl).bind ?_)
  exact (takeLenPrefixedU32_inverts.reads h).bind_last (.pure _)

/-- **What opens a sealed letter finds what was sealed.** -/
theorem openWith_sealTo [SealedBoxes] (hgenuine : SealedBoxes.Genuine)
    (hseal : sealTo kind recipient seed payload = .ok bytes) (hopen : openWith bytes secret = .ok found) :
    found = (kind, recipient, payload) := by
  obtain ⟨letter, hletter, rfl⟩ := sealTo_ok hseal
  obtain ⟨outer, houter, hbox⟩ := try_ok hopen
  have hread : Reads readOuter (magic ++ ([version] ++ ([kind] ++ (recipient.bytes ++ letter)))) _ :=
    readOuter_reads hletter
  have hslip := hread []
  rw [append_nil] at hslip
  rw [parseOuter, hslip] at houter
  cases houter
  obtain ⟨content, hcontent, hfound⟩ := try_ok hbox
  obtain rfl := hgenuine _ _ _ _ _ (okOr_ok hcontent)
  exact (Except.ok.inj hfound).symm

/-- The signature a letter ends with: 64 bytes and nothing after them. -/
def lastSignature (rest : Bytes) : Except Error Signature :=
  if h : rest.length = 64 then .ok ⟨rest, h⟩ else .error .invalidBridgePackage

def signedPart (payload : Bytes) : Bytes := payload.take (payload.length - 64)

end Letter

/-! ## §3. A scheme that computes. -/

def numberOf (message : Bytes) : Digest :=
  .ofNat 32 (message.foldl (fun acc byte => acc * 257 + byte.toNat + 1) 0)

/-- A scheme that can be run: a signature spells its key. -/
@[reducible] def Crypto.toy : Crypto where
  sha256 := numberOf
  signWith secret message := ⟨secret.bytes ++ (numberOf message).bytes, by simp⟩
  validKey _ := true
  verifyStrict key message signature := signature.bytes = key.bytes ++ (numberOf message).bytes

@[reducible] def KeyPairs.toy : KeyPairs where
  encryptionPublic secret := secret
  signingPublic secret := secret

theorem SealedBoxes.toy_genuine : @SealedBoxes.Genuine SealedBoxes.toy := by
  intro key seed payload secret found h
  have hcontent : (key.bytes ++ (beBytes 16 seed ++ payload)).drop 48 = payload := by
    rw [← append_assoc]
    exact drop_left' (by simp)
  have hfound : (if (key.bytes ++ (beBytes 16 seed ++ payload)).take 32 = secret.bytes then
      some ((key.bytes ++ (beBytes 16 seed ++ payload)).drop 48) else none) = some found := h
  split at hfound
  next =>
    rw [hcontent] at hfound
    exact (Option.some.inj hfound).symm
  next => cases hfound

end KeyQuorum
