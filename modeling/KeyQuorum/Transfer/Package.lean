/-
  **THE SIGNED `KQTX` PACKAGE** (`transfer.rs`, `encode_bundle` and
  `open_bundle`).

  A package carries the identities a device hands over: some with their
  secret keys, the others as hints.  The source device signs it for one
  destination.
-/
import KeyQuorum.Container
import KeyQuorum.Store

namespace KeyQuorum.Transfer

open List Foundation

/-! ## §1. Bundles. -/

inductive TransferOp where
  | copy
  | move
  deriving DecidableEq, Repr

def TransferOp.tag : TransferOp → UInt8
  | .copy => 1
  | .move => 2

def TransferOp.fromTag (tag : UInt8) : Except Error TransferOp :=
  if tag = 1 then .ok .copy
  else if tag = 2 then .ok .move
  else .error .integrityCheckFailed

theorem TransferOp.fromTag_tag (operation : TransferOp) : fromTag operation.tag = .ok operation := by
  cases operation <;> rfl

inductive DescendantMode where
  | keyOnly
  | directChildren
  | allDescendants
  deriving DecidableEq, Repr

def DescendantMode.tag : DescendantMode → UInt8
  | .keyOnly => 1
  | .directChildren => 2
  | .allDescendants => 3

def DescendantMode.fromTag (tag : UInt8) : Except Error DescendantMode :=
  if tag = 1 then .ok .keyOnly
  else if tag = 2 then .ok .directChildren
  else if tag = 3 then .ok .allDescendants
  else .error .integrityCheckFailed

theorem DescendantMode.fromTag_tag (mode : DescendantMode) : fromTag mode.tag = .ok mode := by
  cases mode <;> rfl

/-- A possession generation: a positive `i64`. -/
structure Generation where
  val : Nat
  pos : 0 < val
  lt : val < 2 ^ 63
  deriving DecidableEq, Repr

namespace Generation

def first : Generation := ⟨1, by decide, by decide⟩

/-- `saturating_add(1)`. -/
def next (g : Generation) : Generation :=
  if h : g.val + 1 < 2 ^ 63 then ⟨g.val + 1, Nat.succ_pos _, h⟩ else g

/-- `i64::try_from`, and at least 1. -/
def ofNat? (n : Nat) : Option Generation :=
  if h : 0 < n ∧ n < 2 ^ 63 then some ⟨n, h.1, h.2⟩ else none

theorem val_le_next (g : Generation) : g.val ≤ g.next.val := by
  unfold next
  split
  · exact Nat.le_succ _
  · exact Nat.le_refl _

theorem ofNat?_val (g : Generation) : ofNat? g.val = some g := by
  unfold ofNat?
  rw [dif_pos ⟨g.pos, g.lt⟩]

end Generation

/-- `BundleEntry`.  An entry with its secrets hands the identity over, one without is a hint. -/
structure BundleEntry where
  identityId : Id16
  generation : Generation
  label : String
  parentLabel : Option String
  encPublic : Digest
  signPublic : Digest
  encFingerprint : String
  signFingerprint : String
  secrets : Option (Digest × Digest)
  deriving DecidableEq, Repr

structure Bundle where
  id : Id16
  operation : TransferOp
  descendants : DescendantMode
  sourceDeviceId : Id16
  destinationDeviceId : Id16
  actor : String
  rootLabel : String
  entries : List BundleEntry
  deriving DecidableEq, Repr

def Bundle.secretEntries (bundle : Bundle) : List BundleEntry :=
  bundle.entries.filter fun entry => entry.secrets.isSome

/-- `bundle_labels`: the labels handed over. -/
def Bundle.included (bundle : Bundle) : List String := bundle.secretEntries.map BundleEntry.label

/-- `bundle_labels`: the labels of the hints. -/
def Bundle.excluded (bundle : Bundle) : List String :=
  (bundle.entries.filter fun entry => entry.secrets.isNone).map BundleEntry.label

/-! ## §2. Writing. -/

def magic : Bytes := utf8Bytes "KQTX"

def domain : Bytes := utf8Bytes "KQ-TRANSFER-v1"

/-- An integer of `w` bytes, if it fits. -/
def encodeLength (w n : Nat) : Except Error Bytes :=
  if n < 256 ^ w then .ok (beBytes w n) else .error .integrityCheckFailed

def encodeParent : Option String → Except Error Bytes
  | some parent => do
      let label ← pushLenPrefixed (utf8Bytes parent)
      .ok (1 :: label)
  | none => .ok [0]

/-- `KIND_SECRET` or `KIND_HINT`. -/
def BundleEntry.kind (entry : BundleEntry) : UInt8 := if entry.secrets.isSome then 1 else 2

def encodeSecrets : Option (Digest × Digest) → Bytes
  | some (encryptionSecret, signingSecret) => encryptionSecret.bytes ++ signingSecret.bytes
  | none => []

def encodeEntry (entry : BundleEntry) : Except Error Bytes := do
  let label ← pushLenPrefixed (utf8Bytes entry.label)
  let parent ← encodeParent entry.parentLabel
  let encFingerprint ← pushLenPrefixed (utf8Bytes entry.encFingerprint)
  let signFingerprint ← pushLenPrefixed (utf8Bytes entry.signFingerprint)
  .ok ([entry.kind] ++ (entry.identityId.bytes ++ (beBytes 8 entry.generation.val ++ (label ++ (parent
    ++ (entry.encPublic.bytes ++ (entry.signPublic.bytes ++ (encFingerprint ++ (signFingerprint
    ++ encodeSecrets entry.secrets)))))))))

def encodeBody (verifyKey : Digest) (bundle : Bundle) : Except Error Bytes := do
  let actor ← pushLenPrefixed (utf8Bytes bundle.actor)
  let root ← pushLenPrefixed (utf8Bytes bundle.rootLabel)
  let count ← encodeLength 2 bundle.entries.length
  let entries ← writeAll encodeEntry bundle.entries
  .ok (bundle.id.bytes ++ ([bundle.operation.tag] ++ ([bundle.descendants.tag]
    ++ (bundle.sourceDeviceId.bytes ++ (bundle.destinationDeviceId.bytes ++ (verifyKey.bytes
    ++ (actor ++ (root ++ (count ++ entries)))))))))

section Encode

variable [Crypto]

def encodeBundle (source : Container) (bundle : Bundle) : Except Error Bytes := do
  let body ← encodeBody source.verifyKey bundle
  let signature := sign source.deviceSecret (domain ++ body)
  let len ← encodeLength 4 body.length
  .ok (magic ++ ([1] ++ (len ++ (body ++ signature.bytes))))

/-! ## §3. Reading. -/

/-- `split_package`: the body and its signature.  `open_bundle` makes the same checks, each with the
same error. -/
def splitPackage (package : Bytes) : Except Error (Bytes × Signature) :=
  if package.length < 4 + 1 + 4 + 64 || package.take 4 ≠ magic then .error .integrityCheckFailed
  else do
    let (version, rest) ← takeU8 (package.drop 4)
    let (bodyLen, rest) ← if version = 1 then takeU32 rest else .error .integrityCheckFailed
    if h : rest.length = bodyLen + 64 then
      .ok (rest.take bodyLen, ⟨rest.drop bodyLen, by rw [length_drop, h]; omega⟩)
    else .error .integrityCheckFailed

def utf8Text (bytes : Bytes) : Except Error String :=
  match utf8? bytes with
  | some text => .ok text
  | none => .error .integrityCheckFailed

def readText : Reader Error String := do
  let bytes ← takeLenPrefixed
  Reader.lift (utf8Text bytes)

def readLabel : Reader Error String := do
  let text ← readText
  Reader.lift (validateSlotLabel text)
  pure text

def readGeneration : Reader Error Generation := do
  let n ← takeCount 8
  Reader.lift (match Generation.ofNat? n with
    | some generation => .ok generation
    | none => .error .integrityCheckFailed)

def readParent : Reader Error (Option String) := do
  let flag ← takeU8
  if flag = 1 then do
    let parent ← readLabel
    pure (some parent)
  else if flag = 0 then pure none
  else Reader.fail .integrityCheckFailed

variable [KeyPairs]

/-- The secrets of an entry; they have to be those of its public keys. -/
def readSecrets (kind : UInt8) (encPublic signPublic : Digest) :
    Reader Error (Option (Digest × Digest)) :=
  if kind = 1 then do
    let encryptionSecret ← takeArray 32
    let signingSecret ← takeArray 32
    Reader.require (KeyPairs.encryptionPublic encryptionSecret = encPublic
      && KeyPairs.signingPublic signingSecret = signPublic) .integrityCheckFailed
    pure (some (encryptionSecret, signingSecret))
  else if kind = 2 then pure none
  else Reader.fail .integrityCheckFailed

def readEntry : Reader Error BundleEntry := do
  let kind ← takeU8
  let identityId ← takeArray 16
  let generation ← readGeneration
  let label ← readLabel
  let parentLabel ← readParent
  let encPublic ← takeArray 32
  let signPublic ← takeArray 32
  let encFingerprint ← readText
  let signFingerprint ← readText
  Reader.require (encFingerprint = Store.fingerprint encPublic.bytes
    && signFingerprint = Store.fingerprint signPublic.bytes) .integrityCheckFailed
  let secrets ← readSecrets kind encPublic signPublic
  pure { identityId, generation, label
         parentLabel, encPublic, signPublic
         encFingerprint, signFingerprint, secrets }

def readBody (source : DeviceKey) (destination : Id16) : Reader Error Bundle := do
  let id ← takeArray 16
  let operationTag ← takeU8
  let operation ← Reader.lift (TransferOp.fromTag operationTag)
  let modeTag ← takeU8
  let descendants ← Reader.lift (DescendantMode.fromTag modeTag)
  let sourceDeviceId ← takeArray 16
  let destinationDeviceId ← takeArray 16
  let verifyKey ← takeArray 32
  Reader.require (sourceDeviceId = source.deviceId && destinationDeviceId = destination
    && verifyKey = source.verifyKey) .signatureVerificationFailed
  let actor ← readText
  let rootLabel ← readText
  Reader.lift (validateSlotLabel actor)
  Reader.lift (validateSlotLabel rootLabel)
  let count ← takeCount 2
  let entries ← readEntry.readN count
  pure { id, operation, descendants
         sourceDeviceId, destinationDeviceId
         actor, rootLabel, entries }

def openBundle (package : Bytes) (source : DeviceKey) (destination : Id16) : Except Error Bundle := do
  let (body, signature) ← splitPackage package
  verifySignature source.verifyKey (domain ++ body) signature
  let (bundle, rest) ← readBody source destination body
  if !rest.isEmpty then .error .integrityCheckFailed
  else if bundle.entries.any (fun entry => entry.label = bundle.rootLabel && entry.secrets.isSome)
  then .ok bundle
  else .error .ghostDenied

structure AuthenticatedPackage where
  id : Id16
  sourceDeviceId : Id16
  destinationDeviceId : Id16
  verifyKey : Digest
  deriving DecidableEq, Repr

def readHeader : Reader Error AuthenticatedPackage := do
  let id ← takeArray 16
  let _ ← takeU8
  let _ ← takeU8
  let sourceDeviceId ← takeArray 16
  let destinationDeviceId ← takeArray 16
  let verifyKey ← takeArray 32
  pure ⟨id, sourceDeviceId, destinationDeviceId, verifyKey⟩

/-- `authenticated_package`: the signature is checked with the key the body itself names. -/
def authenticatedPackage (package : Bytes) : Except Error AuthenticatedPackage := do
  let (body, signature) ← splitPackage package
  let (header, _) ← readHeader body
  verifySignature header.verifyKey (domain ++ body) signature
  .ok header

/-! ## §4. What an accepted package satisfies. -/

/-- An entry as `open_bundle` lets it through. -/
structure BundleEntry.Genuine (entry : BundleEntry) : Prop where
  label_valid : validateSlotLabel entry.label = .ok ()
  secrets_match : ∀ encryptionSecret signingSecret,
    entry.secrets = some (encryptionSecret, signingSecret) →
      KeyPairs.encryptionPublic encryptionSecret = entry.encPublic
        ∧ KeyPairs.signingPublic signingSecret = entry.signPublic

open Reader (bind_ok lift_bind_ok require_bind_ok pure_ok)

omit [Crypto] in
theorem readSecrets_ok (h : readSecrets kind encPublic signPublic data = .ok (secrets, rest)) :
    ∀ encryptionSecret signingSecret, secrets = some (encryptionSecret, signingSecret) →
      KeyPairs.encryptionPublic encryptionSecret = encPublic
        ∧ KeyPairs.signingPublic signingSecret = signPublic := by
  unfold readSecrets at h
  split at h
  next =>
    obtain ⟨encryptionSecret, _, -, h⟩ := bind_ok h
    obtain ⟨signingSecret, _, -, h⟩ := bind_ok h
    obtain ⟨hmatch, h⟩ := require_bind_ok h
    obtain ⟨rfl, -⟩ := pure_ok h
    intro e s heq
    cases heq
    simpa using hmatch
  next =>
    split at h
    next =>
      obtain ⟨rfl, -⟩ := pure_ok h
      exact fun _ _ heq => absurd heq (by simp)
    next => exact absurd h (by simp [Reader.fail])

omit [Crypto] [KeyPairs] in
theorem readLabel_ok (h : readLabel data = .ok (label, rest)) : validateSlotLabel label = .ok () := by
  unfold readLabel at h
  obtain ⟨text, _, -, h⟩ := bind_ok h
  obtain ⟨_, hvalid, h⟩ := lift_bind_ok h
  obtain ⟨rfl, -⟩ := pure_ok h
  exact hvalid

theorem readEntry_ok (h : readEntry data = .ok (entry, rest)) : entry.Genuine := by
  obtain ⟨kind, _, -, h⟩ := bind_ok h
  obtain ⟨identityId, _, -, h⟩ := bind_ok h
  obtain ⟨generation, _, -, h⟩ := bind_ok h
  obtain ⟨label, _, hlabel, h⟩ := bind_ok h
  obtain ⟨parentLabel, _, -, h⟩ := bind_ok h
  obtain ⟨encPublic, _, -, h⟩ := bind_ok h
  obtain ⟨signPublic, _, -, h⟩ := bind_ok h
  obtain ⟨encFingerprint, _, -, h⟩ := bind_ok h
  obtain ⟨signFingerprint, _, -, h⟩ := bind_ok h
  obtain ⟨-, h⟩ := require_bind_ok h
  obtain ⟨secrets, _, hsecrets, h⟩ := bind_ok h
  obtain ⟨rfl, -⟩ := pure_ok h
  exact ⟨readLabel_ok hlabel, readSecrets_ok hsecrets⟩

/-- A bundle as `open_bundle` lets it through. -/
structure Bundle.Genuine (bundle : Bundle) (source : DeviceKey) (destination : Id16) : Prop where
  source_eq : bundle.sourceDeviceId = source.deviceId
  destination_eq : bundle.destinationDeviceId = destination
  entries : ∀ entry ∈ bundle.entries, entry.Genuine

theorem readBody_ok (h : readBody source destination data = .ok (bundle, rest)) :
    bundle.Genuine source destination := by
  obtain ⟨id, _, -, h⟩ := bind_ok h
  obtain ⟨operationTag, _, -, h⟩ := bind_ok h
  obtain ⟨operation, -, h⟩ := lift_bind_ok h
  obtain ⟨modeTag, _, -, h⟩ := bind_ok h
  obtain ⟨descendants, -, h⟩ := lift_bind_ok h
  obtain ⟨sourceDeviceId, _, -, h⟩ := bind_ok h
  obtain ⟨destinationDeviceId, _, -, h⟩ := bind_ok h
  obtain ⟨verifyKey, _, -, h⟩ := bind_ok h
  obtain ⟨hdevices, h⟩ := require_bind_ok h
  obtain ⟨actor, _, -, h⟩ := bind_ok h
  obtain ⟨rootLabel, _, -, h⟩ := bind_ok h
  obtain ⟨_, -, h⟩ := lift_bind_ok h
  obtain ⟨_, -, h⟩ := lift_bind_ok h
  obtain ⟨count, _, -, h⟩ := bind_ok h
  obtain ⟨entries, _, hentries, h⟩ := bind_ok h
  obtain ⟨rfl, -⟩ := pure_ok h
  simp only [Bool.and_eq_true, decide_eq_true_eq] at hdevices
  exact ⟨hdevices.1.1, hdevices.1.2, Reader.readN_forall readEntry_ok hentries⟩

theorem openBundle_parts (h : openBundle package source destination = .ok bundle) :
    ∃ body signature, splitPackage package = .ok (body, signature)
      ∧ verifySignature source.verifyKey (domain ++ body) signature = .ok ()
      ∧ readBody source destination body = .ok (bundle, []) := by
  obtain ⟨⟨body, signature⟩, hsplit, h⟩ := try_ok h
  obtain ⟨_, hverify, h⟩ := try_ok h
  obtain ⟨⟨read, rest⟩, hread, h⟩ := try_ok h
  cases rest with
  | cons byte rest => cases h
  | nil =>
    obtain ⟨-, h⟩ := then_ok h
    cases h
    exact ⟨body, signature, hsplit, hverify, hread⟩

theorem openBundle_ok
    (h : openBundle package source destination = .ok bundle) : bundle.Genuine source destination := by
  obtain ⟨body, signature, -, -, hread⟩ := openBundle_parts h
  exact readBody_ok hread

/-! ## §5. What was encoded opens to itself, or not at all. -/

section

omit [Crypto] [KeyPairs]

theorem encodeLength_ok (h : encodeLength w n = .ok bs) : pushCount w n = .ok bs := by
  unfold pushCount
  obtain ⟨hlt, h⟩ := then_ok h
  rw [if_pos hlt]
  exact congrArg Except.ok (Except.ok.inj h)

theorem readText_reads (h : pushLenPrefixed (utf8Bytes text) = .ok bs) : Reads readText bs text := by
  refine (takeLenPrefixed_inverts.reads h).bind_last (.lift ?_)
  rw [utf8Text, utf8?_utf8Bytes]

theorem readLabel_readsAtMost (h : pushLenPrefixed (utf8Bytes text) = .ok bs) :
    ReadsAtMost readLabel bs text :=
  (readText_reads h).atMost.bind_last (ReadsAtMost.lift_bind fun _ _ => (Reads.pure text).atMost)

theorem readGeneration_reads (g : Generation) : Reads readGeneration (beBytes 8 g.val) g := by
  have hlt : g.val < 256 ^ 8 := Nat.lt_of_lt_of_le g.lt (by decide)
  refine ((takeCount_inverts 8).reads (pushCount_of_lt hlt)).bind_last (.lift ?_)
  rw [Generation.ofNat?_val]

theorem readParent_readsAtMost (h : encodeParent parent = .ok bs) :
    ReadsAtMost readParent bs parent := by
  cases parent with
  | none =>
    cases h
    exact (takeU8_inverts.reads (a := 0) rfl).atMost.bind_last (Reads.pure none).atMost
  | some label =>
    obtain ⟨bytes, hbytes, h⟩ := try_ok h
    cases h
    show ReadsAtMost readParent ([1] ++ bytes) (some label)
    refine (takeU8_inverts.reads (a := 1) rfl).atMost.bind ?_
    exact (readLabel_readsAtMost hbytes).bind_last (Reads.pure (some label)).atMost

theorem splitPackage_encode (hlen : encodeLength 4 body.length = .ok len) (signature : Signature) :
    splitPackage (magic ++ ([1] ++ (len ++ (body ++ signature.bytes)))) = .ok (body, signature) := by
  have hmagic : magic.length = 4 := by decide
  have hsize : len.length = 4 := by
    rw [(pushCount_ok (encodeLength_ok hlen)).2, length_beBytes]
  have hlong : ¬ (magic ++ ([1] ++ (len ++ (body ++ signature.bytes)))).length < 4 + 1 + 4 + 64 := by
    simp only [length_append, hmagic, hsize, FixedBytes.length_bytes, length_cons, length_nil]
    omega
  have htake : (magic ++ ([1] ++ (len ++ (body ++ signature.bytes)))).take 4 = magic := by
    rw [← hmagic, take_left]
  have hdrop : (magic ++ ([1] ++ (len ++ (body ++ signature.bytes)))).drop 4
      = [1] ++ (len ++ (body ++ signature.bytes)) := by
    rw [← hmagic, drop_left]
  have hversion : takeU8 ([1] ++ (len ++ (body ++ signature.bytes)))
      = .ok (1, len ++ (body ++ signature.bytes)) := rfl
  have hcount : takeU32 (len ++ (body ++ signature.bytes)) = .ok (body.length, body ++ signature.bytes) :=
    (takeCount_inverts 4).reads (encodeLength_ok hlen) (body ++ signature.bytes)
  have hrest : (body ++ signature.bytes).length = body.length + 64 := by simp
  unfold splitPackage
  simp only [hlong, htake, hdrop, hversion, hcount, decide_false, ne_eq, not_true_eq_false,
    Bool.or_self, Bool.false_eq_true, if_false, if_true, except_ok_bind, dif_pos hrest,
    take_left]
  exact congrArg (fun s => Except.ok (body, s)) (FixedBytes.ext_bytes drop_left)

end

omit [Crypto] in
theorem readSecrets_readsAtMost (entry : BundleEntry) :
    ReadsAtMost (readSecrets entry.kind entry.encPublic entry.signPublic)
      (encodeSecrets entry.secrets) entry.secrets := by
  unfold BundleEntry.kind
  cases entry.secrets with
  | none => exact (Reads.pure none).atMost
  | some pair =>
    obtain ⟨encryptionSecret, signingSecret⟩ := pair
    refine ((takeArray_inverts 32).reads (a := encryptionSecret) rfl).atMost.bind ?_
    refine ((takeArray_inverts 32).reads (a := signingSecret) rfl).atMost.bind_last ?_
    exact ReadsAtMost.require_bind (Reads.pure _).atMost

theorem readEntry_readsAtMost (h : encodeEntry entry = .ok bs) : ReadsAtMost readEntry bs entry := by
  unfold encodeEntry at h
  obtain ⟨label, hlabel, h⟩ := try_ok h
  obtain ⟨parent, hparent, h⟩ := try_ok h
  obtain ⟨encFingerprint, henc, h⟩ := try_ok h
  obtain ⟨signFingerprint, hsign, h⟩ := try_ok h
  cases h
  unfold readEntry
  refine (takeU8_inverts.reads (a := entry.kind) rfl).atMost.bind ?_
  refine ((takeArray_inverts 16).reads (a := entry.identityId) rfl).atMost.bind ?_
  refine (readGeneration_reads entry.generation).atMost.bind ?_
  refine (readLabel_readsAtMost hlabel).bind ?_
  refine (readParent_readsAtMost hparent).bind ?_
  refine ((takeArray_inverts 32).reads (a := entry.encPublic) rfl).atMost.bind ?_
  refine ((takeArray_inverts 32).reads (a := entry.signPublic) rfl).atMost.bind ?_
  refine (readText_reads henc).atMost.bind ?_
  refine (readText_reads hsign).atMost.bind ?_
  refine ReadsAtMost.require_bind ?_
  exact (readSecrets_readsAtMost entry).bind_last (Reads.pure entry).atMost

theorem readBody_readsAtMost (h : encodeBody verifyKey bundle = .ok bs) :
    ReadsAtMost (readBody source destination) bs bundle := by
  unfold encodeBody at h
  obtain ⟨actor, hactor, h⟩ := try_ok h
  obtain ⟨root, hroot, h⟩ := try_ok h
  obtain ⟨count, hcount, h⟩ := try_ok h
  obtain ⟨entries, hentries, h⟩ := try_ok h
  cases h
  unfold readBody
  refine ((takeArray_inverts 16).reads (a := bundle.id) rfl).atMost.bind ?_
  refine (takeU8_inverts.reads (a := bundle.operation.tag) rfl).atMost.bind ?_
  refine ReadsAtMost.lift_bind fun operation hoperation => ?_
  obtain rfl := Except.ok.inj ((bundle.operation.fromTag_tag).symm.trans hoperation)
  refine (takeU8_inverts.reads (a := bundle.descendants.tag) rfl).atMost.bind ?_
  refine ReadsAtMost.lift_bind fun mode hmode => ?_
  obtain rfl := Except.ok.inj ((bundle.descendants.fromTag_tag).symm.trans hmode)
  refine ((takeArray_inverts 16).reads (a := bundle.sourceDeviceId) rfl).atMost.bind ?_
  refine ((takeArray_inverts 16).reads (a := bundle.destinationDeviceId) rfl).atMost.bind ?_
  refine ((takeArray_inverts 32).reads (a := verifyKey) rfl).atMost.bind ?_
  refine ReadsAtMost.require_bind ?_
  refine (readText_reads hactor).atMost.bind ?_
  refine (readText_reads hroot).atMost.bind ?_
  refine ReadsAtMost.lift_bind fun _ _ => ReadsAtMost.lift_bind fun _ _ => ?_
  refine ((takeCount_inverts 2).reads (encodeLength_ok hcount)).atMost.bind ?_
  refine (ReadsAtMost.list (fun entry _ _ hentry => readEntry_readsAtMost hentry) hentries).bind_last ?_
  exact (Reads.pure bundle).atMost

/-- **An encoded package opens to what was encoded, or does not open.** -/
theorem openBundle_encode (hencode : encodeBundle container bundle = .ok package)
    (hopen : openBundle package source destination = .ok opened) : opened = bundle := by
  obtain ⟨body, hbody, hencode⟩ := try_ok hencode
  obtain ⟨len, hlen, hencode⟩ := try_ok hencode
  cases hencode
  obtain ⟨body', signature, hsplit, -, hread⟩ := openBundle_parts hopen
  rw [splitPackage_encode hlen] at hsplit
  cases hsplit
  have hback : ReadsAtMost (readBody source destination) body bundle := readBody_readsAtMost hbody
  have hopened := hback [] (opened, []) (by rwa [append_nil])
  exact (Prod.mk.inj hopened).1

end Encode

end KeyQuorum.Transfer
