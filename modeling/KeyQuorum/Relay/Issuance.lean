/-
  **LICENCES AND THE KEYS ISSUED UNDER THEM** (`relay/customer.rs`,
  `relay/licence.rs`, `relay/issuance.rs`).

  A key belongs to a customer only through its link to a licence.  Issuing,
  replacing, assigning, renewing and voiding are one transaction each; voiding
  revokes every key linked to the licence.  Below them stand the host's own
  rotations, which know nothing of licences.
-/
import KeyQuorum.Relay.ApiKey

namespace KeyQuorum.Relay

open Foundation

/-! ## §1. Customers. -/

def maxNameChars : Nat := 200

def maxReferenceChars : Nat := 100

def maxTermsBytes : Nat := 8 * 1024

def maxReasonChars : Nat := 500

def maxLicenceBytes : Nat := 16 * 1024

/-- `MAX_GRACE_SECONDS`: a week. -/
def maxGraceSeconds : Int := 7 * 86400

section Text

variable [CharTable]

def trimmed (text : Option String) : Option String :=
  (text.map trim).filter fun text => !text.isEmpty

end Text

def isControl (c : Char) : Bool := c.toNat < 32 || (127 ≤ c.toNat && c.toNat < 160)

/-- `plain`: no control characters. -/
def plain (text : String) : Bool := text.toList.all fun c => !isControl c

/-- `plain_terms`: line breaks are allowed. -/
def plainTerms (text : String) : Bool := text.toList.all fun c => !isControl c || c = '\n'

structure NewCustomer where
  name : String
  reference : Option String
  deriving DecidableEq, Repr

structure NewLicence where
  terms : String
  expiresAt : Option String
  replaces : Option Nat
  deriving DecidableEq, Repr

namespace KeyDesk

section Customers

variable [CharTable]

/-- `customer::create`. -/
def createCustomer (new : NewCustomer) (s : KeyDesk) : Except Error (Customer × KeyDesk) :=
  let name := trim new.name
  let reference := trimmed new.reference
  if name.isEmpty || maxNameChars < name.length || !plain name
      || reference.any (fun r => maxReferenceChars < r.length || !plain r) then .error .invalidLicence
  else if reference.isSome && s.customers.rows.any (fun row => row.reference = reference) then
    .error .invalidLicence
  else
    let customer : Customer := ⟨freshId (s.customers.rows.map Customer.id), name, reference⟩
    .ok (customer, { s with customers := s.customers.add customer })

end Customers

/-- `customer::get`. -/
def customer (s : KeyDesk) (id : Nat) : Except Error Customer := okOr (s.customers.find? id) .customerNotFound

end KeyDesk

/-! ## §2. Licences. -/

namespace Licence

def latest (licence : Licence) : LicenceVersion := (licence.later.getLast?).getD licence.first

/-- `active`: neither voided nor past its end. -/
def active (licence : Licence) (now : Int) : Bool := !licence.voided && unexpired now licence.expiresAt

/-- `statement`: the text a key issued under the licence carries. -/
def statement (env : RelayEnv) (customer : Customer) (licence : Licence) (scope : ApiKeyScope) : String :=
  let ends := match licence.expiresAt with
    | none => "no fixed end"
    | some e => env.dateText e ++ " UTC"
  let header := "KeyQuorum licence " ++ toString licence.id ++ " (statement " ++ toString licence.latest.version
    ++ ")\nLicensee: " ++ customer.name ++ "\nScope: " ++ scope.asStr ++ "\nIssued: " ++ env.nowText
    ++ " UTC\nEnds: " ++ ends ++ "\n"
  if licence.latest.terms.isEmpty then header else header ++ "\n" ++ licence.latest.terms ++ "\n"

end Licence

def futureEnd (env : RelayEnv) (text : String) : Except Error Int :=
  match env.datetime text with
  | some e => if env.now < e then .ok e else .error .invalidLicence
  | none => .error .invalidLicence

namespace KeyDesk

section Licences

variable [CharTable]

def checkedEnd (env : RelayEnv) (text : Option String) : Except Error (Option Int) :=
  match trimmed text with
  | none => .ok none
  | some text => (futureEnd env text).map some

def checkedTerms (terms : String) : Except Error String :=
  if maxTermsBytes < (trim terms).utf8ByteSize || !plainTerms (trim terms) then .error .invalidLicence
  else .ok (trim terms)

/-- `licence::get`. -/
def licence (s : KeyDesk) (id : Nat) : Except Error Licence := okOr (s.licences.find? id) .licenceNotFound

def checkReplaces (customerId : Nat) (replaces : Option Nat) (s : KeyDesk) : Except Error Unit :=
  match replaces with
  | none => .ok ()
  | some replaced =>
    match s.licences.find? replaced with
    | none => .error .licenceNotFound
    | some theirs => if theirs.customerId ≠ customerId then .error .invalidLicence else .ok ()

/-- `licence::create`. -/
def createLicenceRow (env : RelayEnv) (customerId : Nat) (new : NewLicence) (s : KeyDesk) :
    Except Error (Licence × KeyDesk) := do
  let terms ← checkedTerms new.terms
  let expiresAt ← checkedEnd env new.expiresAt
  s.checkReplaces customerId new.replaces
  let licence : Licence :=
    { id := freshId (s.licences.rows.map Licence.id), customerId, expiresAt
      voided := false, voidReason := none, replacesLicenceId := new.replaces
      first := ⟨1, terms, expiresAt⟩, later := [] }
  .ok (licence, { s with licences := s.licences.add licence })

def renewedEnd (env : RelayEnv) (expiresAt : Option String) (current : Option Int) : Except Error (Option Int) :=
  match trimmed expiresAt with
  | some text => (futureEnd env text).map some
  | none => .ok current

def renewedTerms (terms : Option String) (current : String) : Except Error String :=
  match terms with
  | some text => checkedTerms text
  | none => .ok current

/-- `licence::renew`: a new version of an active licence. -/
def renewRow (env : RelayEnv) (id : Nat) (terms expiresAt : Option String) (s : KeyDesk) :
    Except Error (Licence × KeyDesk) := do
  let current ← s.licence id
  if !current.active env.now then .error .licenceNotActive
  else do
    let terms ← renewedTerms terms current.latest.terms
    let expiresAt ← renewedEnd env expiresAt current.expiresAt
    if terms = current.latest.terms && expiresAt = current.expiresAt then .error .invalidLicence
    else
      let renewed := { current with
        expiresAt, later := current.later ++ [⟨current.latest.version + 1, terms, expiresAt⟩] }
      .ok (renewed, { s with licences := s.licences.put renewed })

/-- `link_key`: a key is linked once. -/
def linkKey (link : KeyLink) (s : KeyDesk) : Except Error KeyDesk :=
  if (s.links.find? link.apiKeyId).isSome then .error .database
  else .ok { s with links := s.links.add link }

/-- `keys_of`: every key linked to a licence, oldest first. -/
def keysOf (s : KeyDesk) (licenceId : Nat) : List Nat :=
  ((s.links.rows.filter fun link => link.licenceId = licenceId).map KeyLink.apiKeyId).insertionSort (· ≤ ·)

/-- `mark_void`: `true` when this call voided it. -/
def markVoid (id : Nat) (reason : Option String) (s : KeyDesk) : Except Error (Bool × KeyDesk) :=
  let reason := trimmed reason
  if reason.any fun text => maxReasonChars < text.length || !plain text then .error .invalidLicence
  else match s.licences.find? id with
    | none => .error .licenceNotFound
    | some licence =>
      if licence.voided then .ok (false, s)
      else .ok (true, { s with licences := s.licences.put { licence with voided := true, voidReason := reason } })

/-- `seconds_remaining`: refused unless the licence is active. -/
def secondsRemaining (env : RelayEnv) (id : Nat) (s : KeyDesk) : Except Error (Option Int) := do
  let current ← s.licence id
  if !current.active env.now then .error .licenceNotActive
  else match current.expiresAt with
    | none => .ok none
    | some e => if e - env.now ≤ 0 then .error .licenceNotActive else .ok (some (e - env.now))

def statementFor (env : RelayEnv) (customer : Customer) (licence : Licence) (scope : ApiKeyScope) :
    Except Error String :=
  let text := licence.statement env customer scope
  if maxLicenceBytes < text.utf8ByteSize then .error .invalidLicence else .ok text

end Licences

/-! ## §3. The flows. -/

def clientScopes : List ApiKeyScope := [.inboxPush, .inboxPull, .devicePush, .devicePull]

inductive CustomerRef where
  | new (customer : NewCustomer)
  | existing (id : Nat)
  deriving DecidableEq, Repr

inductive LicenceRef where
  | new (licence : NewLicence)
  | existing (id : Nat)
  deriving DecidableEq, Repr

/-- `Issuance`: what to issue. -/
structure Issuance where
  customer : CustomerRef
  licence : LicenceRef
  scopes : List ApiKeyScope
  recipientPublicKey : Digest
  relayUrl : String
  deviceId : Option Id16
  deriving DecidableEq, Repr

/-- `RotateVia`: how a replacement reaches its customer. -/
inductive RotateVia where
  | bundle
  | letter (graceSeconds : Int)
  deriving DecidableEq, Repr

section Flows

variable [Crypto] [SealedBoxes] [CharTable]

def validate (env : RelayEnv) (request : Issuance) : Except Error Unit :=
  if request.scopes.isEmpty || request.scopes.any (fun scope => !clientScopes.contains scope) then
    .error .invalidApiKeyRequest
  else if !decide request.scopes.Nodup then .error .invalidApiKeyRequest
  else if SealedBoxes.weakKey request.recipientPublicKey then .error .invalidPublicKey
  else if !env.validUrl request.relayUrl then .error .relayRequest
  else match request.customer, request.licence with
    | .new _, .existing _ => .error .invalidLicence
    | _, _ => .ok ()

def revokeLive : List Nat → KeyDesk → Except Error (List Nat × KeyDesk)
  | [], s => .ok ([], s)
  | key :: rest, s => do
      let info ← s.info key
      if info.revoked then revokeLive rest s
      else do
        let s ← s.revokeBy key hostActor
        let (revoked, s) ← revokeLive rest s
        .ok (key :: revoked, s)

/-- `void_inner`: mark the licence and revoke its keys. -/
def voidInner (id : Nat) (reason : Option String) (s : KeyDesk) : Except Error ((Bool × List Nat) × KeyDesk) := do
  let (newly, s) ← s.markVoid id reason
  let (revoked, s) ← revokeLive (s.keysOf id) s
  .ok ((newly, revoked), s)

def voidReplaced (replaced : Option Nat) (s : KeyDesk) : Except Error KeyDesk :=
  match replaced with
  | none => .ok s
  | some old => do
      let (_, s) ← s.voidInner old (some "replaced by a new licence")
      .ok s

def issueCustomer (ref : CustomerRef) (s : KeyDesk) : Except Error (Customer × KeyDesk) :=
  match ref with
  | .new new => s.createCustomer new
  | .existing id => (s.customer id).map fun customer => (customer, s)

def issueLicence (env : RelayEnv) (customerId : Nat) (ref : LicenceRef) (s : KeyDesk) :
    Except Error (Licence × KeyDesk) :=
  match ref with
  | .new new => s.createLicenceRow env customerId new
  | .existing id => do
      let found ← s.licence id
      if found.customerId ≠ customerId then .error .invalidLicence else .ok (found, s)

def issueKey (env : RelayEnv) (customer : Customer) (licence : Licence) (ttl : Option Int) (request : Issuance)
    (scope : ApiKeyScope) (s : KeyDesk) : Except Error (ApiKey × KeyDesk) := do
  let statement ← statementFor env customer licence scope
  let (key, s) ← s.createAsBundle env ⟨scope, none, some customer.name, ttl⟩
    ⟨request.recipientPublicKey, request.relayUrl, request.deviceId, some statement⟩
  let s ← s.linkKey ⟨key.id, licence.id, some licence.latest.version, none⟩
  .ok (key, s)

def issueKeys (env : RelayEnv) (customer : Customer) (licence : Licence) (ttl : Option Int)
    (request : Issuance) : List ApiKeyScope → KeyDesk → Except Error (List ApiKey × KeyDesk)
  | [], s => .ok ([], s)
  | scope :: rest, s => do
      let (key, s) ← s.issueKey env customer licence ttl request scope
      let (keys, s) ← issueKeys env customer licence ttl request rest s
      .ok (key :: keys, s)

/-- The licence an issuance voids; keys added to an existing licence never void the one it replaced. -/
def replacedBy (request : Issuance) (licence : Licence) : Option Nat :=
  match request.licence with
  | .new _ => licence.replacesLicenceId
  | .existing _ => none

def issue (env : RelayEnv) (request : Issuance) (s : KeyDesk) : Except Error (List ApiKey × KeyDesk) := do
  validate env request
  let (customer, s) ← s.issueCustomer request.customer
  let (licence, s) ← s.issueLicence env customer.id request.licence
  let ttl ← s.secondsRemaining env licence.id
  let (keys, s) ← issueKeys env customer licence ttl request request.scopes s
  let s ← s.voidReplaced (replacedBy request licence)
  env.done
  .ok (keys, s)

def createLicence (env : RelayEnv) (customerId : Nat) (new : NewLicence) (s : KeyDesk) :
    Except Error (Licence × KeyDesk) := do
  let _ ← s.customer customerId
  let (made, s) ← s.createLicenceRow env customerId new
  let s ← s.voidReplaced made.replacesLicenceId
  env.done
  .ok (made, s)

/-- The rotation of `rotate`. -/
def rotateVia (env : RelayEnv) (id : Nat) (recipient : Recipient) (s : KeyDesk) :
    RotateVia → Except Error (ApiKey × KeyDesk)
  | .bundle => s.rotateAsBundle env id (some recipient)
  | .letter graceSeconds => s.rotateAsLetter env id (some recipient) graceSeconds

def checkGrace : RotateVia → Except Error Unit
  | .letter graceSeconds =>
    if graceSeconds < 1 || maxGraceSeconds < graceSeconds then .error .invalidApiKeyRequest else .ok ()
  | .bundle => .ok ()

section

variable (env : RelayEnv) (id : Nat)

/-- `issuance::rotate`: replace a key under the same licence. -/
def rotate (via : RotateVia) (s : KeyDesk) : Except Error (ApiKey × KeyDesk) := do
  checkGrace via
  let link ← okOr (s.links.find? id) .keyNotAssigned
  let licence ← s.licence link.licenceId
  let customer ← s.customer licence.customerId
  let _ ← s.secondsRemaining env licence.id
  let key ← s.info id
  let recorded ← okOr (s.recipientFor id) .deliveryRecipientMissing
  let statement ← statementFor env customer licence key.scope
  let (created, s) ← s.rotateVia env id { recorded with licence := some statement } via
  let s ← s.setExpiry created.id licence.expiresAt
  let s ← s.linkKey ⟨created.id, licence.id, some licence.latest.version, some id⟩
  env.done
  let created ← s.info created.id
  .ok (created, s)

def voidLicence (reason : Option String) (s : KeyDesk) :
    Except Error ((Bool × List Nat) × KeyDesk) := do
  let (voided, s) ← s.voidInner id reason
  env.done
  .ok (voided, s)

def revokeKey (s : KeyDesk) : Except Error (Unit × KeyDesk) := do
  let s ← s.revokeBy id hostActor
  env.done
  .ok ((), s)

def renewLicence (terms expiresAt : Option String) (s : KeyDesk) :
    Except Error (Licence × KeyDesk) := do
  let (renewed, s) ← s.renewRow env id terms expiresAt
  env.done
  .ok (renewed, s)

end

/-- `assign_key`: an unassigned key of a customer scope, to an active licence. -/
def assignKey (env : RelayEnv) (keyId licenceId : Nat) (s : KeyDesk) : Except Error (Unit × KeyDesk) := do
  let key ← s.info keyId
  if !clientScopes.contains key.scope || (s.links.find? keyId).isSome then .error .invalidApiKeyRequest
  else do
    let licence ← s.licence licenceId
    if !licence.active env.now then .error .licenceNotActive
    else do
      let s ← s.linkKey ⟨keyId, licenceId, none, none⟩
      env.done
      .ok ((), s)

end Flows

end KeyDesk

end KeyQuorum.Relay
