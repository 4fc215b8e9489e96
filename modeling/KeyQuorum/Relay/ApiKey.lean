/-
  **THE RELAY'S API KEYS** (`relay/api_key.rs`, `relay/key_delivery.rs`).

  A key is a row with the hash of its bearer; it is minted, revoked, given
  an end, and replaced by a rotation, which ends the old key at once or
  after a grace period and records which key replaced which.  A key issued
  to a customer is sealed to them; whom it was sealed to is recorded.

  Every function here runs inside a transaction of its caller: it gives a
  result and the new rows, or fails.
-/
import KeyQuorum.Foundation.Table
import KeyQuorum.Letter
import KeyQuorum.Store

namespace KeyQuorum.Relay

open Foundation

/-! ## §1. Rows. -/

inductive ApiKeyScope where
  | inboxPush
  | inboxPull
  | admin
  | devicePush
  | devicePull
  deriving DecidableEq, Repr

def ApiKeyScope.asStr : ApiKeyScope → String
  | .inboxPush => "inbox.push"
  | .inboxPull => "inbox.pull"
  | .admin => "admin"
  | .devicePush => "device.push"
  | .devicePull => "device.pull"

def ApiKeyScope.bindsRecipient : ApiKeyScope → Bool
  | .inboxPull | .devicePull => true
  | .inboxPush | .admin | .devicePush => false

/-- A row of `api_keys`.  Times are seconds. -/
structure ApiKey where
  id : Nat
  keyHash : Digest
  scope : ApiKeyScope
  recipientFingerprint : Option String
  label : Option String
  expiresAt : Option Int
  revoked : Bool
  deriving DecidableEq, Repr

structure NewApiKey where
  scope : ApiKeyScope
  recipientFingerprint : Option String
  label : Option String
  ttlSeconds : Option Int
  deriving DecidableEq, Repr

inductive KeyChange where
  | created
  | revoked
  | rotated
  deriving DecidableEq, Repr

/-- A row of `api_key_events`. -/
structure KeyEvent where
  keyId : Nat
  event : KeyChange
  actor : String
  relatedKeyId : Option Nat
  deriving DecidableEq, Repr

/-- `Recipient`: whom a key is sealed to, and what its issue says. -/
structure Recipient where
  publicKey : Digest
  relayUrl : String
  deviceId : Option Id16
  licence : Option String
  deriving DecidableEq, Repr

/-- `Via`: how a sealed issue left the host. -/
inductive Via where
  | bundle (sha256 : Digest)
  | letter (id : Nat) (ends : Option Int)
  deriving DecidableEq, Repr

/-- A row of `api_key_deliveries`. -/
structure Delivery where
  keyId : Nat
  recipient : Recipient
  via : Via
  deriving DecidableEq, Repr

/-- A row of `customers`. -/
structure Customer where
  id : Nat
  name : String
  reference : Option String
  deriving DecidableEq, Repr

/-- A row of `licence_versions`: terms and end. -/
structure LicenceVersion where
  version : Nat
  terms : String
  expiresAt : Option Int
  deriving DecidableEq, Repr

/-- A row of `licences` with its versions, oldest first. -/
structure Licence where
  id : Nat
  customerId : Nat
  expiresAt : Option Int
  voided : Bool
  voidReason : Option String
  replacesLicenceId : Option Nat
  first : LicenceVersion
  later : List LicenceVersion
  deriving DecidableEq, Repr

/-- `KeyLink`: a row of `licence_keys`. -/
structure KeyLink where
  apiKeyId : Nat
  licenceId : Nat
  licenceVersion : Option Nat
  replacesKeyId : Option Nat
  deriving DecidableEq, Repr

/-- The tables of the key desk. -/
structure KeyDesk where
  keys : Table ApiKey Nat ApiKey.id
  events : List KeyEvent
  deliveries : Table Delivery Nat Delivery.keyId
  customers : Table Customer Nat Customer.id
  licences : Table Licence Nat Licence.id
  links : Table KeyLink Nat KeyLink.apiKeyId
  deriving DecidableEq

def KeyDesk.empty : KeyDesk := ⟨.empty, [], .empty, .empty, .empty, .empty⟩

/-- What a call finds around it: the clock, SQLite's reading and writing of dates, the hash of the bearer
drawn for a new key, the decoding of base 64, the sealing and the delivery of an issue, and whether the
operator's record of the call could be written. -/
structure RelayEnv where
  now : Int
  nowText : String
  datetime : String → Option Int
  dateText : Int → String
  representable : Int → Bool
  bearerHash : Nat → Digest
  decodeBase64 : String → Option Bytes
  validUrl : String → Bool
  sealBundle : Nat → Recipient → Except Error Digest
  storeLetter : Nat → Recipient → Option Int → Except Error Nat
  done : Except Error Unit

/-! ## §2. Minting and ending keys. -/

def hostActor : String := "host"

/-- `to_ascii_lowercase`. -/
def asciiLower (text : String) : String := String.ofList (text.toList.map Char.toLower)

/-- `str::trim`. -/
def trim [CharTable] (text : String) : String :=
  String.ofList ((text.toList.dropWhile CharTable.isWhitespace).rdropWhile CharTable.isWhitespace)

def normalizeUrl [CharTable] (url : String) : String :=
  String.ofList ((trim url).toList.rdropWhile fun c => c = '/')

/-- `normalize_fingerprint`: 64 hexadecimal digits, in lower case. -/
def normalizeFingerprint (fingerprint : String) : Except Error String :=
  if fingerprint.length ≠ 64 || !fingerprint.toList.all (fun c => (hexValue c).isSome) then
    .error .invalidApiKeyRequest
  else .ok (asciiLower fingerprint)

/-- Whether an end has not been reached: `expires_at IS NULL OR datetime(expires_at) > datetime('now')`. -/
def unexpired (now : Int) (expiresAt : Option Int) : Bool := expiresAt.all fun e => now < e

def expiryFromTtl (env : RelayEnv) (ttlSeconds : Int) : Except Error Int :=
  if ttlSeconds = 0 || !env.representable (env.now + ttlSeconds) then .error .invalidApiKeyRequest
  else .ok (env.now + ttlSeconds)

def newExpiry (env : RelayEnv) : Option Int → Except Error (Option Int)
  | some ttl => (expiryFromTtl env ttl).map some
  | none => .ok none

/-- The binding of a new key: pull scopes have one, no other scope has. -/
def newBinding (new : NewApiKey) : Except Error (Option String) :=
  match new.scope.bindsRecipient, new.recipientFingerprint with
  | true, some fingerprint => (normalizeFingerprint fingerprint).map some
  | true, none | false, some _ => .error .invalidApiKeyRequest
  | false, none => .ok none

namespace KeyDesk

/-- `load_info`. -/
def info (s : KeyDesk) (id : Nat) : Except Error ApiKey := okOr (s.keys.find? id) .apiKeyNotFound

def recordEvent (s : KeyDesk) (event : KeyEvent) : KeyDesk := { s with events := s.events ++ [event] }

def newKey (s : KeyDesk) (env : RelayEnv) (new : NewApiKey) (fingerprint : Option String)
    (expiresAt : Option Int) : ApiKey :=
  let id := freshId (s.keys.rows.map ApiKey.id)
  ⟨id, env.bearerHash id, new.scope, fingerprint, new.label, expiresAt, false⟩

def addKey (key : ApiKey) (s : KeyDesk) : Except Error (ApiKey × KeyDesk) :=
  if s.keys.rows.any fun row => row.keyHash = key.keyHash then .error .database
  else .ok (key, { s with keys := s.keys.add key })

def insert (env : RelayEnv) (new : NewApiKey) (s : KeyDesk) : Except Error (ApiKey × KeyDesk) := do
  let fingerprint ← newBinding new
  let expiresAt ← newExpiry env new.ttlSeconds
  s.addKey (s.newKey env new fingerprint expiresAt)

def create (env : RelayEnv) (new : NewApiKey) (s : KeyDesk) : Except Error (ApiKey × KeyDesk) := do
  let (key, s) ← s.insert env new
  .ok (key, s.recordEvent ⟨key.id, .created, hostActor, none⟩)

/-- `revoke_inner`: revoking a revoked key changes nothing. -/
def revokeBy (id : Nat) (actor : String) (s : KeyDesk) : Except Error KeyDesk :=
  match s.keys.find? id with
  | none => .error .apiKeyNotFound
  | some key =>
    if key.revoked then .ok s
    else .ok (recordEvent { s with keys := s.keys.put { key with revoked := true } }
      ⟨id, .revoked, actor, none⟩)

def setExpiry (id : Nat) (expiresAt : Option Int) (s : KeyDesk) : Except Error KeyDesk := do
  let key ← s.info id
  .ok { s with keys := s.keys.put { key with expiresAt } }

/-- `OldKey`: what a rotation does with the key it replaces. -/
inductive OldKey where
  | revokeNow
  | expireAfter (seconds : Int)
  deriving DecidableEq, Repr

def endOld (env : RelayEnv) (id : Nat) (old : OldKey) (s : KeyDesk) : Except Error KeyDesk :=
  match old with
  | .revokeNow => s.revokeBy id hostActor
  | .expireAfter seconds =>
    if seconds ≤ 0 then .error .invalidApiKeyRequest
    else do
      let limit ← expiryFromTtl env seconds
      let key ← s.info id
      let expiresAt := match key.expiresAt with
        | none => limit
        | some e => if limit < e then limit else e
      s.setExpiry id (some expiresAt)

def keepEnd (id : Nat) (expiresAt : Option Int) (s : KeyDesk) : Except Error KeyDesk :=
  match expiresAt with
  | some e => s.setExpiry id (some e)
  | none => .ok s

/-- `rotate_with`: a new key with the same scope and binding, and the old one ended. -/
def rotateWith (env : RelayEnv) (id : Nat) (old : OldKey) (s : KeyDesk) : Except Error (ApiKey × KeyDesk) := do
  let key ← s.info id
  if key.revoked then .error .apiKeyRevoked
  else do
    let (created, s) ← s.insert env ⟨key.scope, key.recipientFingerprint, key.label, none⟩
    let s ← s.keepEnd created.id key.expiresAt
    let s ← s.endOld env id old
    let s := s.recordEvent ⟨created.id, .rotated, hostActor, some id⟩
    let created ← s.info created.id
    .ok (created, s)

def hasLivePullKey (env : RelayEnv) (fingerprint : String) (s : KeyDesk) : Except Error Bool := do
  let fingerprint ← normalizeFingerprint fingerprint
  .ok (s.keys.rows.any fun key => key.scope = .inboxPull && key.recipientFingerprint = some fingerprint
    && !key.revoked && unexpired env.now key.expiresAt)

/-- `hash_bearer`: of the 32 bytes that follow the prefix. -/
def hashBearer [Crypto] (env : RelayEnv) (token : String) : Except Error Digest := do
  let rest ← okOr (token.toList.dropPrefix? "kq_".toList) .invalidApiKey
  let raw ← okOr (env.decodeBase64 (String.ofList rest)) .invalidApiKey
  if raw.length ≠ 32 then .error .invalidApiKey else .ok (sha256 raw)

/-- `authenticate`: the id of a live, unexpired key of the required scope.  The hash of a bearer is
unique, so one row is looked at. -/
def authenticate [Crypto] (env : RelayEnv) (token : String) (required : ApiKeyScope) (s : KeyDesk) :
    Except Error Nat := do
  let hash ← hashBearer env token
  match s.keys.rows.find? fun key => key.keyHash = hash with
  | none => .error .invalidApiKey
  | some key =>
    if key.revoked then .error .apiKeyRevoked
    else if !unexpired env.now key.expiresAt then .error .apiKeyExpired
    else if key.scope ≠ required then .error .apiKeyScopeDenied
    else .ok key.id

/-! ## §3. Sealing a key to its customer. -/

section Delivery

variable [Crypto] [CharTable]

def recipientFor (s : KeyDesk) (id : Nat) : Option Recipient := (s.deliveries.find? id).map Delivery.recipient

/-- `record_delivery`: one row per key. -/
def recordDelivery (keyId : Nat) (recipient : Recipient) (via : Via) (s : KeyDesk) : Except Error KeyDesk :=
  if (s.deliveries.find? keyId).isSome then .error .database
  else
    let recorded := { recipient with relayUrl := normalizeUrl recipient.relayUrl }
    .ok { s with deliveries := s.deliveries.add ⟨keyId, recorded, via⟩ }

/-- `eq_ignore_ascii_case`, with the fingerprint of a public key. -/
def isFingerprintOf (bound : String) (publicKey : Digest) : Bool :=
  asciiLower bound = asciiLower (Store.fingerprint publicKey.bytes)

/-- `resolve_recipient`: the recipient given now, else the one recorded; a bound key is sealed only to
the key it is bound to. -/
def resolveRecipient (id : Nat) (given : Option Recipient) (s : KeyDesk) : Except Error Recipient := do
  let recipient ← okOr (given.or (s.recipientFor id)) .deliveryRecipientMissing
  let key ← s.info id
  if key.recipientFingerprint.any fun bound => !isFingerprintOf bound recipient.publicKey then
    .error .invalidApiKeyRequest
  else .ok recipient

def deliverBundle (env : RelayEnv) (created : ApiKey) (recipient : Recipient) (s : KeyDesk) :
    Except Error (ApiKey × KeyDesk) := do
  let sha256 ← env.sealBundle created.id recipient
  let s ← s.recordDelivery created.id recipient (.bundle sha256)
  .ok (created, s)

/-- The binding `create_as_bundle` gives a new key. -/
def bundleBinding (new : NewApiKey) (recipient : Recipient) : Except Error NewApiKey :=
  if new.scope.bindsRecipient then
    match new.recipientFingerprint with
    | none => .ok { new with recipientFingerprint := some (Store.fingerprint recipient.publicKey.bytes) }
    | some given => if isFingerprintOf given recipient.publicKey then .ok new else .error .invalidApiKeyRequest
  else .ok new

def createAsBundle (env : RelayEnv) (new : NewApiKey) (recipient : Recipient) (s : KeyDesk) :
    Except Error (ApiKey × KeyDesk) := do
  let new ← bundleBinding new recipient
  let (created, s) ← s.create env new
  s.deliverBundle env created recipient

variable (env : RelayEnv) (id : Nat)

def rotateAsBundle (given : Option Recipient) (s : KeyDesk) : Except Error (ApiKey × KeyDesk) := do
  let recipient ← s.resolveRecipient id given
  let (created, s) ← s.rotateWith env id .revokeNow
  s.deliverBundle env created recipient

/-- Whether the customer can collect a letter that carries the replacement of a key. -/
def collectable (recipient : Recipient) (s : KeyDesk) : Except Error Bool := do
  let key ← s.info id
  if key.scope = .inboxPull then .ok true
  else s.hasLivePullKey env (Store.fingerprint recipient.publicKey.bytes)

/-- `rotate_as_letter`: only when the letter can be collected; it expires with the old key. -/
def rotateAsLetter (given : Option Recipient) (graceSeconds : Int) (s : KeyDesk) :
    Except Error (ApiKey × KeyDesk) := do
  let recipient ← s.resolveRecipient id given
  let collectable ← s.collectable env id recipient
  if !collectable then .error .deliveryNotCollectable
  else do
    let (created, s) ← s.rotateWith env id (.expireAfter graceSeconds)
    let replaced ← s.info id
    let letterId ← env.storeLetter created.id recipient replaced.expiresAt
    let s ← s.recordDelivery created.id recipient (.letter letterId replaced.expiresAt)
    .ok (created, s)

end Delivery

end KeyDesk

end KeyQuorum.Relay
