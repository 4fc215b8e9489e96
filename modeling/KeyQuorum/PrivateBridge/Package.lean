/-
  **THE PACKAGES OF A PRIVATE BRIDGE** (`private_bridge.rs`, `PackageFields`
  to `decode_package`, with the party maps and the update preimage).

  One format carries invitations, rotations, supervisor copies and destroy
  notices: the bridge, its standard (public key and salt), the roster, and
  for an update a signature under the key of the generation it ends.  The
  signature covers the kind, the roster and the LABEL of the recipient; the
  key the letter is sealed to stands on the envelope only.
-/
import KeyQuorum.Letter
import KeyQuorum.Foundation.SortedMap

namespace KeyQuorum.PrivateBridge

open List Foundation Letter

/-! ## §1. Parties. -/

inductive PartyRole where
  | member
  | supervisor
  deriving DecidableEq, Repr

def PartyRole.toU8 : PartyRole → UInt8
  | .member => 1
  | .supervisor => 2

def PartyRole.fromU8 (v : UInt8) : Except Error PartyRole :=
  if v = 1 then .ok .member
  else if v = 2 then .ok .supervisor
  else .error .invalidBridgePackage

theorem PartyRole.fromU8_toU8 (role : PartyRole) : PartyRole.fromU8 role.toU8 = .ok role := by
  cases role <;> rfl

structure MemberKeys where
  encryption : Digest
  signing : Digest
  deriving DecidableEq

/-- `BTreeMap<String, MemberKeys>`. -/
abbrev Members := SortedMap String MemberKeys

/-- `BTreeMap<String, [u8; 32]>`. -/
abbrev Supervisors := SortedMap String Digest

def MemberKeys.bytes (keys : MemberKeys) : Bytes := keys.encryption.bytes ++ keys.signing.bytes

/-! ## §2. Party maps. -/

def pushEntry {α : Type} (value : α → Bytes) (entry : String × α) : Except Error Bytes := do
  let label ← pushLenPrefixed (utf8Bytes entry.1)
  .ok (label ++ value entry.2)

def pushMap {α : Type} (value : α → Bytes) (map : SortedMap String α) : Except Error Bytes := do
  let count ← pushCount 2 map.entries.length
  let entries ← writeAll (pushEntry value) map.entries
  .ok (count ++ entries)

def pushMemberMap (map : Members) : Except Error Bytes := pushMap MemberKeys.bytes map

def pushPartyMap (map : Supervisors) : Except Error Bytes := pushMap FixedBytes.bytes map

def takeEntry {α : Type} (value : Reader Error α) : Reader Error (String × α) := do
  let label ← takeText
  let found ← value
  pure (label, found)

def takeMap {α : Type} (value : Reader Error α) : Reader Error (SortedMap String α) := do
  let count ← takeCount 2
  let entries ← (takeEntry value).readN count
  pure (SortedMap.ofEntries entries)

/-- The two keys of a member; the signing key has to be a verifying key. -/
def takeMemberKeys [Crypto] : Reader Error MemberKeys := do
  let encryption ← takeArray 32
  let signing ← takeArray 32
  Reader.require (Crypto.validKey signing) .invalidBridgePackage
  pure ⟨encryption, signing⟩

def takeMemberMap [Crypto] : Reader Error Members := takeMap takeMemberKeys

def takePartyMap : Reader Error Supervisors := takeMap (takeArray 32)

theorem takeMemberKeys_readsAtMost [Crypto] (keys : MemberKeys) :
    ReadsAtMost takeMemberKeys keys.bytes keys := by
  refine ((takeArray_inverts 32).reads rfl).atMost.bind ?_
  refine ((takeArray_inverts 32).reads rfl).atMost.bind_last ?_
  exact ReadsAtMost.require_bind (Reads.pure keys).atMost

theorem takeMap_readsAtMost {α : Type} {value : α → Bytes} {read : Reader Error α}
    (hvalue : ∀ a, ReadsAtMost read (value a) a) {map : SortedMap String α} {bs : Bytes}
    (h : pushMap value map = .ok bs) : ReadsAtMost (takeMap read) bs map := by
  obtain ⟨count, hcount, h⟩ := try_ok h
  obtain ⟨entries, hentries, h⟩ := try_ok h
  cases h
  refine ((takeCount_inverts 2).reads hcount).atMost.bind ?_
  have hentry : ∀ entry ∈ map.entries, ∀ bytes, pushEntry value entry = .ok bytes →
      ReadsAtMost (takeEntry read) bytes entry := by
    intro entry _ bytes hbytes
    obtain ⟨label, hlabel, hbytes⟩ := try_ok hbytes
    cases hbytes
    exact (takeText_reads hlabel).atMost.bind ((hvalue entry.2).bind_last (Reads.pure entry).atMost)
  refine (ReadsAtMost.list hentry hentries).bind_last ?_
  rw [SortedMap.ofEntries_entries]
  exact (Reads.pure map).atMost

/-! ## §3. What an update is signed over. -/

def updateDomain : Bytes := utf8Bytes "KQBRIDGE-UPDATE-v1"

/-- One entry of a party map as it is hashed; a label cannot be empty. -/
def hashEntry {α : Type} (value : α → Bytes) (entry : String × α) : Except Error Bytes :=
  if entry.1.isEmpty then .error .invalidBridgePackage
  else do
    let label ← hashLenPrefixed (utf8Bytes entry.1)
    .ok (label ++ value entry.2)

def hashMap {α : Type} (value : α → Bytes) (map : SortedMap String α) : Except Error Bytes := do
  let count ← pushCount 2 map.entries.length
  let entries ← writeAll (hashEntry value) map.entries
  .ok (count ++ entries)

/-- A `u32` as it is written. -/
def u32Bytes (n : UInt32) : Bytes := beBytes 4 n.toNat

def updateAuthPreimage [Crypto] (uid : String) (generation : UInt32) (kind : UInt8)
    (publicKey : Digest) (salt : Id16) (recipientLabel : String) (members : Members)
    (supervisors : Supervisors) (removedLabel : String) : Except Error Bytes := do
  let uid ← hashLenPrefixed (utf8Bytes uid)
  let recipient ← hashLenPrefixed (utf8Bytes recipientLabel)
  let removed ← hashLenPrefixed (utf8Bytes removedLabel)
  let members ← hashMap MemberKeys.bytes members
  let supervisors ← hashMap FixedBytes.bytes supervisors
  .ok (sha256 (updateDomain ++ (uid ++ (u32Bytes generation ++ ([kind] ++ (publicKey.bytes
    ++ (salt.bytes ++ (recipient ++ (removed ++ (members ++ supervisors)))))))))).bytes

/-! ## §4. Packages. -/

/-- `PackageFields`; `wrap_salt` and `secret` are given together or not at all. -/
structure PackageFields where
  kind : UInt8
  uid : String
  generation : UInt32
  bridgeLabel : String
  publicKey : Digest
  salt : Id16
  recipientLabel : String
  recipientPublicKey : Digest
  role : PartyRole
  members : Members
  supervisors : Supervisors
  removedLabel : String
  secret : Option (Id16 × Digest)
  oldSigning : Option Digest

structure DecodedPackage where
  kind : UInt8
  uid : String
  generation : UInt32
  bridgeLabel : String
  publicKey : Digest
  salt : Id16
  recipientLabel : String
  recipientPublicKey : Digest
  role : PartyRole
  members : Members
  supervisors : Supervisors
  removedLabel : String
  secret : Option (Id16 × Digest)
  authSig : Option Signature

def optionBytes (value : Option Bytes) : Bytes :=
  match value with
  | some bytes => 1 :: bytes
  | none => [0]

def takeOption {α : Type} (value : Reader Error α) : Reader Error (Option α) := do
  let flag ← takeU8
  if flag ≠ 0 then some <$> value else pure none

theorem takeOption_reads {α : Type} {read : Reader Error α} {write : α → Bytes}
    (h : ∀ a, Reads read (write a) a) (value : Option α) :
    Reads (takeOption read) (optionBytes (value.map write)) value := by
  cases value with
  | none => exact (takeU8_inverts.reads rfl).bind_last (.pure none)
  | some a =>
    show Reads _ ([1] ++ write a) _
    refine (takeU8_inverts.reads rfl).bind ?_
    have hsome : Reads (some <$> read) (write a ++ []) (some a) :=
      (h a).bind (f := fun found => (pure (some found) : Reader Error (Option α))) (.pure (some a))
    rwa [append_nil] at hsome

section Crypto

variable [Crypto]

def PackageFields.preimage (f : PackageFields) : Except Error Bytes :=
  updateAuthPreimage f.uid f.generation f.kind f.publicKey f.salt f.recipientLabel f.members
    f.supervisors f.removedLabel

def PackageFields.authSig (f : PackageFields) : Except Error (Option Signature) :=
  match f.oldSigning with
  | some secret => do
      let preimage ← f.preimage
      .ok (some (sign secret preimage))
  | none => .ok none

def PackageFields.payload (f : PackageFields) : Except Error Bytes := do
  let uid ← pushLenPrefixed (utf8Bytes f.uid)
  let bridgeLabel ← pushLenPrefixed (utf8Bytes f.bridgeLabel)
  let recipient ← pushLenPrefixed (utf8Bytes f.recipientLabel)
  let members ← pushMemberMap f.members
  let supervisors ← pushPartyMap f.supervisors
  let removed ← pushLenPrefixed (utf8Bytes f.removedLabel)
  let auth ← f.authSig
  .ok (uid ++ (u32Bytes f.generation ++ (bridgeLabel ++ (f.publicKey.bytes ++ (f.salt.bytes
    ++ (recipient ++ ([f.role.toU8] ++ (members ++ (supervisors ++ (removed
    ++ (optionBytes (f.secret.map fun pair => pair.1.bytes ++ pair.2.bytes)
    ++ optionBytes (auth.map FixedBytes.bytes))))))))))))

def readPackage (kind : UInt8) (recipientPublicKey : Digest) : Reader Error DecodedPackage := do
  let uid ← takeText
  let generation ← takeU32
  let bridgeLabel ← takeText
  let publicKey ← takeArray 32
  let salt ← takeArray 16
  let recipientLabel ← takeText
  let roleByte ← takeU8
  let role ← Reader.lift (PartyRole.fromU8 roleByte)
  let members ← takeMemberMap
  let supervisors ← takePartyMap
  let removedLabel ← takeText
  let secret ← takeOption (do
    let wrap ← takeArray 16
    let secret ← takeArray 32
    pure (wrap, secret))
  let authSig ← takeOption (takeArray 64)
  pure
    { kind, uid, generation := UInt32.ofNat generation, bridgeLabel
      publicKey, salt, recipientLabel
      recipientPublicKey, role, members
      supervisors, removedLabel, secret, authSig }

/-- The letter inside an envelope of a kind, made out to a key; nothing may follow. -/
def decodePayload (kind : UInt8) (recipientPublicKey : Digest) (payload : Bytes) :
    Except Error DecodedPackage := do
  let (decoded, rest) ← readPackage kind recipientPublicKey payload
  if rest.isEmpty then .ok decoded else .error .invalidBridgePackage

/-- What is read of a package: its fields, with the signature in place of the signing key. -/
def PackageFields.decoded (f : PackageFields) (authSig : Option Signature) : DecodedPackage :=
  { kind := f.kind, uid := f.uid, generation := f.generation, bridgeLabel := f.bridgeLabel
    publicKey := f.publicKey, salt := f.salt, recipientLabel := f.recipientLabel
    recipientPublicKey := f.recipientPublicKey, role := f.role, members := f.members
    supervisors := f.supervisors, removedLabel := f.removedLabel, secret := f.secret
    authSig }

/-! ## §5. Reading back. -/

omit [Crypto] in
theorem takeU32_reads (n : UInt32) : Reads takeU32 (u32Bytes n) n.toNat :=
  (takeCount_inverts 4).reads (pushCount_of_lt n.toNat_lt)

/-- What is read of the letter in an envelope of a kind, made out to a key. -/
def PackageFields.readAs (f : PackageFields) (kind : UInt8) (recipientPublicKey : Digest)
    (authSig : Option Signature) : DecodedPackage :=
  { f.decoded authSig with kind, recipientPublicKey }

variable {f : PackageFields} {decoded : DecodedPackage} {payload : Bytes}

theorem readPackage_readsAtMost (h : f.payload = .ok payload) (kind : UInt8) (key : Digest) :
    ∃ authSig, f.authSig = .ok authSig
      ∧ ReadsAtMost (readPackage kind key) payload (f.readAs kind key authSig) := by
  obtain ⟨uid, huid, h⟩ := try_ok h
  obtain ⟨bridgeLabel, hbridgeLabel, h⟩ := try_ok h
  obtain ⟨recipient, hrecipient, h⟩ := try_ok h
  obtain ⟨members, hmembers, h⟩ := try_ok h
  obtain ⟨supervisors, hsupervisors, h⟩ := try_ok h
  obtain ⟨removed, hremoved, h⟩ := try_ok h
  obtain ⟨authSig, hauth, h⟩ := try_ok h
  cases h
  refine ⟨authSig, hauth, ?_⟩
  refine (takeText_reads huid).atMost.bind ((takeU32_reads f.generation).atMost.bind ?_)
  refine (takeText_reads hbridgeLabel).atMost.bind ?_
  refine ((takeArray_inverts 32).reads rfl).atMost.bind ?_
  refine ((takeArray_inverts 16).reads rfl).atMost.bind ?_
  refine (takeText_reads hrecipient).atMost.bind ((takeU8_inverts.reads rfl).atMost.bind ?_)
  refine ReadsAtMost.lift_bind fun role hrole => ?_
  obtain rfl := Except.ok.inj ((PartyRole.fromU8_toU8 f.role).symm.trans hrole)
  refine (takeMap_readsAtMost takeMemberKeys_readsAtMost hmembers).bind ?_
  refine (takeMap_readsAtMost (fun key => ((takeArray_inverts 32).reads rfl).atMost) hsupervisors).bind ?_
  refine (takeText_reads hremoved).atMost.bind ?_
  refine (takeOption_reads (fun pair : Id16 × Digest => ?_) f.secret).atMost.bind ?_
  · exact ((takeArray_inverts 16).reads rfl).bind
      (((takeArray_inverts 32).reads rfl).bind_last (.pure pair))
  refine (takeOption_reads (fun signature => (takeArray_inverts 64).reads rfl) authSig).atMost.bind_last ?_
  rw [UInt32.ofNat_toNat]
  exact (Reads.pure _).atMost

/-- **What is read is what was written**, whatever envelope it came in. -/
theorem decodePayload_payload (h : f.payload = .ok payload)
    (hdecode : decodePayload kind key payload = .ok decoded) :
    ∃ authSig, f.authSig = .ok authSig ∧ decoded = f.readAs kind key authSig := by
  obtain ⟨authSig, hauth, hreads⟩ := readPackage_readsAtMost h kind key
  obtain ⟨found, hfound, hdecode⟩ := try_ok hdecode
  have hback := hreads [] found (by rwa [append_nil])
  subst hback
  exact ⟨authSig, hauth, (Except.ok.inj hdecode).symm⟩

/-! ## §6. Sealed packages. -/

variable [SealedBoxes]

/-- `encode_package`; `seed` is the randomness of the box. -/
def encodePackage (f : PackageFields) (seed : Nat) : Except Error Bytes :=
  if SealedBoxes.weakKey f.recipientPublicKey then .error .invalidPublicKey
  else do
    let payload ← f.payload
    sealTo f.kind f.recipientPublicKey seed payload

def decodePackage (bytes : Bytes) (recipientSecret : Digest) : Except Error DecodedPackage := do
  let (kind, recipientPublicKey, payload) ← openWith bytes recipientSecret
  decodePayload kind recipientPublicKey payload

theorem decodePackage_encodePackage (hgenuine : SealedBoxes.Genuine)
    (h : encodePackage f seed = .ok bytes) (hdecode : decodePackage bytes secret = .ok decoded) :
    ∃ authSig, f.authSig = .ok authSig ∧ decoded = f.decoded authSig := by
  obtain ⟨-, h⟩ := else_ok h
  obtain ⟨payload, hpayload, hseal⟩ := try_ok h
  obtain ⟨opened, hopened, hdecode⟩ := try_ok hdecode
  obtain rfl := openWith_sealTo hgenuine hseal hopened
  exact decodePayload_payload hpayload hdecode

end Crypto

end KeyQuorum.PrivateBridge
