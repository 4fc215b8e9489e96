/-
  **THE LOCAL DATABASE** (`db/schema.sql`), as far as split trees, hardware
  keys and custody are concerned, and the hardware-key registry
  (`keys.rs`).

  A table is a list of rows in rowid order.  Timestamps and columns that no
  modelled query reads are left out; ids are natural numbers, and a new row
  gets one more than the largest id in its table.
-/
import KeyQuorum.Platform
import KeyQuorum.Text
import Mathlib.Data.List.Fold
import Mathlib.Data.List.MinMax
import Mathlib.Data.List.Sort

namespace KeyQuorum

open List Foundation

/-! ## §1. Rows. -/

inductive KeyType where
  | encryption
  | signing
  deriving DecidableEq, Repr

/-- A row of `hardware_keys`. -/
structure HardwareKey where
  id : Nat
  label : String
  keyType : KeyType
  fingerprint : String
  publicKey : Bytes
  revoked : Bool
  deriving DecidableEq, Repr

inductive CustodyMode where
  | hardware
  | logical
  deriving DecidableEq, Repr

inductive UnlockApproval where
  | none
  | parent
  deriving DecidableEq, Repr

/-- A row of `keys`: one split tree. -/
structure KeyRow where
  id : Nat
  label : String
  publicGeneration : Nat := 1
  custodyMode : CustodyMode := .hardware
  minimumPhysicalDevices : Nat := 1
  unlockApproval : UnlockApproval := .none
  deriving DecidableEq, Repr

/-- A row of `key_nodes`: a split with a threshold, or a leaf with a hardware key. -/
structure NodeRow where
  id : Nat
  keyId : Nat
  parentId : Option Nat
  label : String
  threshold : Option Nat
  hardwareKeyId : Option Nat
  wrappedShare : Option Bytes
  isActive : Bool := true
  deriving DecidableEq, Repr

/-- A row of `key_node_bridges`: a whitelist entry. -/
structure BridgeRow where
  nodeId : Nat
  peerLabel : String
  deriving DecidableEq, Repr

/-- A row of `key_node_links`: an established pairing. -/
structure LinkRow where
  nodeAId : Nat
  nodeBId : Nat
  deriving DecidableEq, Repr

/-- A row of `device_placements`. -/
structure Placement where
  hardwareKeyId : Nat
  deviceId : Id16
  slotLabel : String
  deriving DecidableEq, Repr

/-- `key_possession.state`. -/
inductive PossessionState where
  | active
  | ghost
  deriving DecidableEq, Repr

/-- A row of `key_identities`. -/
structure Identity where
  id : Id16
  encPublic : Bytes
  deriving DecidableEq, Repr

/-- A row of `key_possession`. -/
structure Possession where
  identityId : Id16
  state : PossessionState
  deriving DecidableEq, Repr

/-- The tables of a database. -/
structure Store where
  hardwareKeys : List HardwareKey := []
  keys : List KeyRow := []
  nodes : List NodeRow := []
  bridges : List BridgeRow := []
  links : List LinkRow := []
  placements : List Placement := []
  identities : List Identity := []
  possession : List Possession := []
  generationsSeen : List (Nat × Nat) := []
  deriving DecidableEq, Repr

def freshId (ids : List Nat) : Nat := ids.foldl max 0 + 1

theorem lt_freshId {id : Nat} (h : id ∈ ids) : id < freshId ids := by
  unfold freshId
  rw [List.foldl_eq_foldr]
  exact Nat.lt_succ_of_le (List.le_max_of_le' 0 h le_rfl)

theorem freshId_not_mem (ids : List Nat) : freshId ids ∉ ids :=
  fun h => Nat.lt_irrefl _ (lt_freshId h)

theorem ne_freshId (h : i ∈ ids) : i ≠ freshId ids := fun heq => freshId_not_mem ids (heq ▸ h)

/-- The `CHECK`s on `key_nodes`. -/
def NodeRow.check (row : NodeRow) : Bool :=
  (row.threshold.all fun threshold => 0 < threshold)
    && ((row.threshold.isSome && row.hardwareKeyId.isNone && row.wrappedShare.isNone)
      || (row.threshold.isNone && row.hardwareKeyId.isSome))

variable {row : NodeRow}

theorem NodeRow.check_leaf (h : row.check) (hleaf : row.hardwareKeyId.isSome) :
    row.threshold = none := by
  unfold NodeRow.check at h
  cases hthreshold : row.threshold with
  | none => rfl
  | some threshold =>
    rw [hthreshold] at h
    cases hkey : row.hardwareKeyId with
    | none =>
      rw [hkey] at hleaf
      exact absurd hleaf (by simp)
    | some id =>
      rw [hkey] at h
      exact absurd h (by simp)

namespace Store

/-! ## §2. Queries. -/

section

variable (db : Store)

/-- `keys::get_key`; a missing row is a database error. -/
def getKey (id : Nat) : Except Error HardwareKey :=
  match db.hardwareKeys.find? (fun key => key.id = id) with
  | some key => .ok key
  | none => .error .database

def getActiveEncryptionKey (id : Nat) : Except Error HardwareKey := do
  let key ← db.getKey id
  if key.keyType ≠ .encryption then .error .wrongKeyType
  else if key.revoked then .error .keyRevoked
  else .ok key

def getKeyByPublicKey (publicKey : Bytes) : Except Error HardwareKey :=
  match db.hardwareKeys.find? (fun key => key.publicKey = publicKey) with
  | some key => .ok key
  | none => .error .invalidPublicKey

def getKeyByFingerprint (fingerprint : String) : Except Error HardwareKey :=
  match db.hardwareKeys.find? (fun key => key.fingerprint = fingerprint) with
  | some key => .ok key
  | none => .error .invalidPublicKey

/-- The `keys` row of an id. -/
def keyRow (keyId : Nat) : Option KeyRow := db.keys.find? (fun key => key.id = keyId)

/-- The rows of a tree, `ORDER BY id`. -/
def treeNodes (keyId : Nat) : List NodeRow :=
  (db.nodes.filter (fun row => row.keyId = keyId)).insertionSort (fun a b => a.id ≤ b.id)

def nodeIdForLabel (keyId : Nat) (label : String) : Except Error Nat :=
  match db.nodes.find? (fun row => row.keyId = keyId && row.label = label) with
  | some row => .ok row.id
  | none => .error .nodeNotFound

end

variable {db : Store} {id : Nat} {key : HardwareKey}

theorem getKey_ok (h : db.getKey id = .ok key) : key ∈ db.hardwareKeys ∧ key.id = id := by
  unfold getKey at h
  split at h
  next key' hfind =>
    cases h
    exact ⟨mem_of_find?_eq_some hfind, by simpa using List.find?_some hfind⟩
  next => cases h

theorem getActiveEncryptionKey_ok (h : db.getActiveEncryptionKey id = .ok key) :
    key ∈ db.hardwareKeys ∧ key.id = id ∧ key.keyType = .encryption := by
  obtain ⟨found, hfound, h⟩ := try_ok h
  obtain ⟨htype, h⟩ := else_ok h
  obtain ⟨-, h⟩ := else_ok h
  cases h
  obtain ⟨hmem, hid⟩ := getKey_ok hfound
  exact ⟨hmem, hid, not_not.mp htype⟩

theorem getKey_of_mem (h : id ∈ db.hardwareKeys.map HardwareKey.id) : ∃ key, db.getKey id = .ok key := by
  obtain ⟨key, hkey, rfl⟩ := mem_map.mp h
  have hsome : (db.hardwareKeys.find? (fun other => other.id = key.id)).isSome := by
    rw [find?_isSome]
    exact ⟨key, hkey, by simp⟩
  obtain ⟨other, hother⟩ := Option.isSome_iff_exists.mp hsome
  exact ⟨other, by unfold getKey; rw [hother]⟩

/-! ## §3. Constraints. -/

section Sound

variable [Crypto]

def fingerprint (publicKey : Bytes) : String := hexEncode (sha256 publicKey).bytes

/-- What holds of every database: the keys and `CHECK`s of the schema, and what the program's own
writes keep up beside them (registered keys have 32 bytes and their own fingerprint, a node and
its parent are in one tree, a label names one node of a tree). -/
@[mk_iff]
structure Sound (db : Store) : Prop where
  hardwareIds : (db.hardwareKeys.map HardwareKey.id).Nodup
  fingerprints : (db.hardwareKeys.map HardwareKey.fingerprint).Nodup
  registered : ∀ key ∈ db.hardwareKeys,
    key.publicKey.length = 32 ∧ key.fingerprint = fingerprint key.publicKey
  keyIds : (db.keys.map KeyRow.id).Nodup
  generations : ∀ key ∈ db.keys, 0 < key.publicGeneration
  nodeIds : db.nodes.Pairwise fun a b => a.id < b.id
  nodeKeys : ∀ row ∈ db.nodes, row.keyId ∈ db.keys.map KeyRow.id
  nodeParents : ∀ row ∈ db.nodes, ∀ parent, row.parentId = some parent →
    ∃ other ∈ db.nodes, other.id = parent ∧ other.keyId = row.keyId
  nodeHardware : ∀ row ∈ db.nodes, ∀ id, row.hardwareKeyId = some id →
    ∃ key ∈ db.hardwareKeys, key.id = id ∧ key.keyType = .encryption
  nodeChecks : ∀ row ∈ db.nodes, row.check = true
  nodeLabels : ∀ a ∈ db.nodes, ∀ b ∈ db.nodes, a.keyId = b.keyId → a.label = b.label → a = b
  bridgeRows : db.bridges.Nodup
  bridgeNodes : ∀ bridge ∈ db.bridges, bridge.nodeId ∈ db.nodes.map NodeRow.id
  linkRows : db.links.Nodup
  linkNodes : ∀ link ∈ db.links, link.nodeAId < link.nodeBId
    ∧ link.nodeAId ∈ db.nodes.map NodeRow.id ∧ link.nodeBId ∈ db.nodes.map NodeRow.id

instance (db : Store) : Decidable db.Sound := decidable_of_iff' _ (sound_iff db)

end Sound

theorem mem_treeNodes : row ∈ db.treeNodes keyId ↔ row ∈ db.nodes ∧ row.keyId = keyId := by
  unfold treeNodes
  rw [mem_insertionSort, mem_filter, decide_eq_true_eq]

theorem Sound.treeNodes_eq [Crypto] (h : db.Sound) (keyId : Nat) :
    db.treeNodes keyId = db.nodes.filter fun row => row.keyId = keyId := by
  refine List.Pairwise.insertionSort_eq ?_
  exact (h.nodeIds.filter _).imp fun hlt => Nat.le_of_lt hlt

/-! ## §4. Sample keys. -/

namespace Sample

/-- The SHA-256 digests of the keys of three members. -/
def keyHashes : List (Bytes × Digest) := [
  (List.replicate 32 1, .ofNat 32 0x72cd6e8422c407fb6d098690f1130b7ded7ec2f7f5e1d30bd9d521f015363793),
  (List.replicate 32 2, .ofNat 32 0x75877bb41d393b5fb8455ce60ecd8dda001d06316496b14dfa7f895656eeca4a),
  (List.replicate 32 3, .ofNat 32 0x648aa5c579fb30f38af744d97d6ec840c7a91277a499a0d780f3e7314eca090b)]

@[reducible] def keyCrypto : Crypto := Crypto.known keyHashes []

section Keys

attribute [local instance] keyCrypto

def memberKey (id : Nat) (label : String) : HardwareKey :=
  ⟨id, label, .encryption, fingerprint (List.replicate 32 (UInt8.ofNat id)),
    List.replicate 32 (UInt8.ofNat id), false⟩

end Keys

def splitRow (id : Nat) (parentId : Option Nat) (label : String) (threshold : Nat) : NodeRow :=
  { id, keyId := 1, parentId, label, threshold := some threshold, hardwareKeyId := none, wrappedShare := none }

def leafRow (id parentId : Nat) (label : String) (key : Nat) : NodeRow :=
  { id, keyId := 1, parentId := some parentId, label, threshold := none, hardwareKeyId := some key
    wrappedShare := none }

end Sample

end Store

end KeyQuorum
