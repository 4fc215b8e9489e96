/-
  **TAKING OVER A PUBLISHED TREE** (`apply_public_tree` in `key_tree.rs`).

  The nodes of a snapshot are written parents first, over the rows the
  store already has for their labels; rows of other labels are deleted,
  and whitelist and links are written anew.
-/
import KeyQuorum.KeyTree.Bridges
import KeyQuorum.KeyTree.Visibility

namespace KeyQuorum

open List Foundation
open PublicTree (WellShaped nodeKeyBytes wellShaped_cases)

namespace Store

section Apply

variable [Crypto]

/-! ## §1. Registering keys. -/

def registerKey (label : String) (keyType : KeyType) (publicKey : Bytes) : Db Nat := do
  Op.require (publicKey.length = 32) .invalidPublicKey
  insertHardwareKey label keyType (fingerprint publicKey) publicKey

def getOrRegister (label : String) (keyType : KeyType) (publicKey : Bytes) : Db Nat := do
  Op.require (publicKey.length = 32) .invalidPublicKey
  let db ← Op.read
  match db.getKeyByPublicKey publicKey with
  | .ok existing =>
    if existing.keyType ≠ keyType then Op.lift (.error .wrongKeyType) else return existing.id
  | .error .invalidPublicKey => registerKey label keyType publicKey
  | .error e => Op.lift (.error e)

/-! ## §2. One node. -/

/-- `hex::decode` of a key. -/
def decodeKey (text : String) : Except Error Bytes :=
  match hexDecode text with
  | some raw => .ok raw
  | none => .error .invalidPublicKey

def checkFingerprint (id : Nat) : Option String → Db Unit
  | some expected => do
      let db ← Op.read
      let key ← Op.lift (db.getKey id)
      Op.require (key.fingerprint = expected) .invalidPublicKey
  | none => pure ()

/-- The hardware key `apply_public_node` finds or registers for a node. -/
def nodeKey (node : PublicNode) : Db (Option Nat) :=
  match node.encryptionPublicKey, node.encryptionFingerprint with
  | some hexPk, expectedFp => do
      let pk ← Op.lift (decodeKey hexPk)
      let id ← getOrRegister node.label .encryption pk
      checkFingerprint id expectedFp
      return some id
  | none, some fp => do
      let db ← Op.read
      let key ← Op.lift (db.getKeyByFingerprint fp)
      return some key.id
  | none, none => return none

def parentIdOf (db : Store) (keyId : Nat) (node : PublicNode) : Except Error (Option Nat) :=
  match node.parentLabel with
  | some label => (db.nodeIdForLabel keyId label).map some
  | none => .ok none

/-- What the `UPDATE` of `apply_public_node` makes of a row. -/
def appliedRow (node : PublicNode) (parentId hardwareKeyId : Option Nat) (row : NodeRow) : NodeRow :=
  { row with
    parentId
    threshold := node.threshold.map UInt8.toNat
    wrappedShare :=
      if hardwareKeyId.isSome && hardwareKeyId ≠ row.hardwareKeyId then none else row.wrappedShare
    hardwareKeyId :=
      if row.wrappedShare.isSome && hardwareKeyId.isNone then row.hardwareKeyId else hardwareKeyId
    isActive := node.isActive }

section

variable (keyId : Nat) (node : PublicNode) (parentId hardwareKeyId : Option Nat)

/-- The row the `INSERT` of `apply_public_node` writes. -/
def newRow : NodeRow :=
  { id := 0, keyId, parentId, label := node.label,
    threshold := node.threshold.map UInt8.toNat, hardwareKeyId,
    wrappedShare := none, isActive := node.isActive }

/-- The end of `apply_public_node`: update the row of the label, or insert one. -/
def writeNode : Db Unit := do
  let db ← Op.read
  match db.nodeIdForLabel keyId node.label with
  | .ok id => updateNode id (appliedRow node parentId hardwareKeyId)
  | .error _ => do
      let _ ← insertNode (newRow keyId node parentId hardwareKeyId)
      pure ()

end

def applyPublicNode (keyId : Nat) (node : PublicNode) : Db Unit := do
  let db ← Op.read
  let parentId ← Op.lift (db.parentIdOf keyId node)
  let hardwareKeyId ← nodeKey node
  Op.require (!(node.threshold.isNone && hardwareKeyId.isNone)) .invalidTreeSpec
  writeNode keyId node parentId hardwareKeyId

/-! ## §3. The whole tree. -/

/-- One round over the pending nodes: a node whose parent is in the snapshot and not yet written
waits.  Returns the waiting nodes and the labels written. -/
def applyRound (keyId : Nat) (remaining : List String) :
    List PublicNode → List String → List PublicNode → Db (List PublicNode × List String)
  | [], ready, next => pure (next, ready)
  | node :: rest, ready, next =>
    if node.parentLabel.any fun parent => remaining.contains parent && !ready.contains parent then
      applyRound keyId remaining rest ready (next ++ [node])
    else do
      applyPublicNode keyId node
      applyRound keyId remaining rest (ready ++ [node.label]) next

/-- The loop over the pending nodes; a round without progress is an error. -/
def applyPending (keyId : Nat) (remaining : List String) :
    Nat → List PublicNode → List String → Db Unit
  | _, [], _ => pure ()
  | 0, _ :: _, _ => Op.lift (.error .invalidTreeSpec)
  | rounds + 1, node :: pending, ready => do
      let (next, ready) ← applyRound keyId remaining (node :: pending) ready []
      if next.length = (node :: pending).length then Op.lift (.error .invalidTreeSpec)
      else applyPending keyId remaining rounds next ready

def deleteLabels (keyId : Nat) (remaining : List String) : List String → Db Unit
  | [] => pure ()
  | label :: rest => do
      if remaining.contains label then pure ()
      else deleteNodes fun row => row.keyId = keyId && row.label = label
      deleteLabels keyId remaining rest

def inTree (db : Store) (keyId id : Nat) : Bool :=
  db.nodes.any fun row => row.keyId = keyId && row.id = id

def labelled (db : Store) (keyId : Nat) (label : String) : Bool :=
  db.nodes.any fun row => row.keyId = keyId && row.label = label

/-- `allow_bridge` for each whitelist entry. -/
def allowEdges (keyId : Nat) : List PublicEdge → Db Unit
  | [] => pure ()
  | edge :: rest => do
      allowBridge keyId edge.from_ edge.to_
      allowEdges keyId rest

/-- `add_bridge` for each link. -/
def addEdges (keyId : Nat) : List PublicEdge → Db Unit
  | [] => pure ()
  | edge :: rest => do
      addBridge keyId edge.from_ edge.to_
      addEdges keyId rest

def noteGeneration (keyId generation : Nat) : Db Unit := do
  Op.require (generation < 2 ^ 63) .invalidTreeSpec
  insertGenerationSeen keyId generation

/-- `tree_by_label`: the oldest tree of that label. -/
def treeByLabel (db : Store) (label : String) : Option KeyRow :=
  (db.keys.insertionSort fun a b => a.id ≤ b.id).find? fun key => key.label = label

def targetKey (keyId : Option Nat) (snapshot : PublicTree) : Db Nat := do
  let db ← Op.read
  match keyId with
  | some id =>
    match db.keyRow id with
    | none => Op.lift (.error .treeNotFound)
    | some row => if row.label ≠ snapshot.label then Op.lift (.error .invalidTreeSpec) else return id
  | none =>
    match db.treeByLabel snapshot.label with
    | some row => return row.id
    | none => insertKey snapshot.label

/-- `SELECT public_generation FROM keys WHERE id = ..`. -/
def storedGeneration (db : Store) (keyId : Nat) : Except Error Nat :=
  match db.keyRow keyId with
  | some row => .ok row.publicGeneration
  | none => .error .database

/-- The whitelist and the links of a tree, replaced by those of the snapshot. -/
def replaceEdges (keyId : Nat) (snapshot : PublicTree) : Db Unit := do
  deleteBridges fun db bridge => db.inTree keyId bridge.nodeId && db.labelled keyId bridge.peerLabel
  deleteLinks fun db link => db.inTree keyId link.nodeAId && db.inTree keyId link.nodeBId
  allowEdges keyId snapshot.whitelist
  addEdges keyId snapshot.links

/-- The generation left and the one taken are noted, and the tree moves on. -/
def moveGeneration (keyId generation : Nat) : Db Unit := do
  let db ← Op.read
  match db.keyRow keyId with
  | some row => noteGeneration keyId row.publicGeneration
  | none => pure ()
  updateGeneration keyId generation
  noteGeneration keyId generation

/-- The writes of `apply_public_tree_inner`, once the tree is known and the checks have passed. -/
def mergeTree (keyId : Nat) (snapshot : PublicTree) : Db Unit := do
  applyPending keyId snapshot.labels snapshot.nodes.length snapshot.nodes []
  let db ← Op.read
  deleteLabels keyId snapshot.labels ((db.nodes.filter fun row => row.keyId = keyId).map NodeRow.label)
  replaceEdges keyId snapshot
  moveGeneration keyId snapshot.generation.toNat

def applyPublicTreeInner (keyId : Option Nat) (snapshot : PublicTree) : Db Nat := do
  let keyId ← targetKey keyId snapshot
  let db ← Op.read
  let stored ← Op.lift (db.storedGeneration keyId)
  Op.require (stored ≤ snapshot.generation.toNat) .stalePublicTree
  Op.require (snapshot.labels.Nodup) .duplicateNodeLabel
  mergeTree keyId snapshot
  return keyId

def applyPublicTree (keyId : Option Nat) (snapshot : PublicTree) : Db Nat := do
  Op.require (!snapshot.nodes.isEmpty) .invalidTreeSpec
  (applyPublicTreeInner keyId snapshot).transaction

/-! ## §4. Keys. -/

def keyBytes (db : Store) (hardwareKeyId : Option Nat) : Option Bytes :=
  hardwareKeyId.bind fun id => (db.hardwareKeys.find? fun key => key.id = id).map HardwareKey.publicKey

variable {db db' : Store} {keyId : Nat} {node : PublicNode} {key a b : HardwareKey}

theorem Sound.key_unique (h : db.Sound) (ha : a ∈ db.hardwareKeys) (hb : b ∈ db.hardwareKeys)
    (hid : a.id = b.id) : a = b :=
  inj_on_of_nodup_map h.hardwareIds ha hb hid

theorem Sound.getKey_of_mem (h : db.Sound) (hkey : key ∈ db.hardwareKeys) :
    db.getKey key.id = .ok key := by
  obtain ⟨other, hother⟩ := Store.getKey_of_mem (mem_map_of_mem hkey)
  obtain ⟨hmem, hid⟩ := getKey_ok hother
  rw [hother, h.key_unique hmem hkey hid]

theorem Sound.keyBytes_of_mem (h : db.Sound) (hkey : key ∈ db.hardwareKeys) :
    db.keyBytes (some key.id) = some key.publicKey := by
  show (db.hardwareKeys.find? _).map HardwareKey.publicKey = _
  rw [find?_of_unique hkey (by simp) fun other hother hid => h.key_unique hother hkey (by simpa using hid)]
  rfl

variable {hardwareKeyId parentId : Option Nat} {publicKey : Bytes} {label : String} {id : Nat}

theorem Sound.key_of_publicKey (h : db.Sound) (ha : a ∈ db.hardwareKeys) (hb : b ∈ db.hardwareKeys)
    (heq : a.publicKey = b.publicKey) : a = b := by
  refine inj_on_of_nodup_map h.fingerprints ha hb ?_
  rw [(h.registered a ha).2, (h.registered b hb).2, heq]

/-- Only keys are added to the store, all of them encryption keys with bytes in `P`. -/
structure AddsKeys (P : Bytes → Prop) (db db' : Store) : Prop where
  sound : db'.Sound
  frame : db' = { db with hardwareKeys := db'.hardwareKeys }
  grows : db.hardwareKeys ⊆ db'.hardwareKeys
  added : ∀ key ∈ db'.hardwareKeys, key ∈ db.hardwareKeys ∨ key.keyType = .encryption ∧ P key.publicKey

structure KeyFound (db db' : Store) (publicKey : Bytes) (id : Nat) : Prop
    extends AddsKeys (· = publicKey) db db' where
  key : ∃ key ∈ db'.hardwareKeys, key.id = id ∧ key.keyType = .encryption ∧ key.publicKey = publicKey

theorem AddsKeys.refl (h : db.Sound) : AddsKeys P db db :=
  ⟨h, rfl, List.Subset.refl _, fun _ hkey => .inl hkey⟩

omit [Crypto] in
theorem getKeyByPublicKey_ok (h : db.getKeyByPublicKey publicKey = .ok key) :
    key ∈ db.hardwareKeys ∧ key.publicKey = publicKey := by
  unfold getKeyByPublicKey at h
  split at h
  next found hfind =>
    cases h
    exact ⟨mem_of_find?_eq_some hfind, by simpa using List.find?_some hfind⟩
  next => cases h

omit [Crypto] in
theorem getKeyByPublicKey_error (h : db.getKeyByPublicKey publicKey = .error e) :
    e = .invalidPublicKey ∧ ∀ key ∈ db.hardwareKeys, key.publicKey ≠ publicKey := by
  unfold getKeyByPublicKey at h
  split at h
  next => cases h
  next hfind =>
    rw [List.find?_eq_none] at hfind
    exact ⟨(Except.error.inj h).symm, fun key hkey => by simpa using hfind key hkey⟩

theorem registerKey_ok (h : db.Sound)
    (hok : registerKey label .encryption publicKey db = (.ok id, db')) :
    KeyFound db db' publicKey id := by
  obtain ⟨hlength, hinsert⟩ := Op.require_bind_ok hok
  have hsound := h.insertHardwareKey (of_decide_eq_true hlength) hinsert
  obtain ⟨-, hid, hdb⟩ := insertHardwareKey_ok.mp hinsert
  have hkeys : db'.hardwareKeys = db.hardwareKeys
      ++ [⟨id, label, .encryption, fingerprint publicKey, publicKey, false⟩] := by rw [hdb]
  refine ⟨⟨hsound, by rw [hdb], ?_, fun key hkey => ?_⟩, ?_⟩
  · rw [hkeys]
    exact subset_append_left _ _
  · rw [hkeys] at hkey
    rcases mem_snoc.mp hkey with hkey | rfl
    · exact .inl hkey
    · exact .inr ⟨rfl, rfl⟩
  · rw [hkeys]
    exact ⟨_, mem_concat_self, rfl, rfl, rfl⟩

theorem getOrRegister_ok (h : db.Sound)
    (hok : getOrRegister label .encryption publicKey db = (.ok id, db')) :
    KeyFound db db' publicKey id := by
  obtain ⟨-, hok⟩ := Op.require_bind_ok hok
  have hok := Op.read_bind_ok hok
  cases hget : db.getKeyByPublicKey publicKey with
  | ok existing =>
    rw [hget] at hok
    dsimp only at hok
    obtain ⟨hmem, hpublic⟩ := getKeyByPublicKey_ok hget
    split at hok
    next => cases hok
    next htype =>
      obtain ⟨rfl, rfl⟩ := Op.pure_ok hok
      exact ⟨.refl h, existing, hmem, rfl, not_not.mp htype, hpublic⟩
  | error e =>
    obtain rfl := (getKeyByPublicKey_error hget).1
    rw [hget] at hok
    exact registerKey_ok h hok

structure NodeKeyed (db db' : Store) (node : PublicNode) (hardwareKeyId : Option Nat) : Prop
    extends AddsKeys (nodeKeyBytes node = some ·) db db' where
  key : ∀ id, hardwareKeyId = some id → ∃ key ∈ db'.hardwareKeys, key.id = id ∧ key.keyType = .encryption
  bytes : db'.keyBytes hardwareKeyId = nodeKeyBytes node
  leaf : hardwareKeyId.isSome = node.threshold.isNone

variable {u : Unit}

omit [Crypto] in
theorem checkFingerprint_ok (h : checkFingerprint id expected db = (.ok u, db')) : db' = db := by
  cases expected with
  | none => exact (Op.pure_ok h).2.symm
  | some text =>
    obtain ⟨key, -, h⟩ := Op.lift_bind_ok (Op.read_bind_ok h)
    unfold Op.require at h
    exact (Prod.mk.inj h).2.symm

theorem nodeKey_ok (h : db.Sound) (hshape : WellShaped node)
    (hok : nodeKey node db = (.ok hardwareKeyId, db')) : NodeKeyed db db' node hardwareKeyId := by
  rcases wellShaped_cases hshape with
    ⟨threshold, hthreshold, -, hfp, hpk⟩ | ⟨hthreshold, fp, pk, raw, hfp, hpk, hraw, hlength⟩
  · -- a split names no key
    unfold nodeKey at hok
    rw [hfp, hpk] at hok
    obtain ⟨rfl, rfl⟩ := Op.pure_ok hok
    refine ⟨.refl h, fun id hid => ?_, ?_, ?_⟩
    · cases hid
    · unfold nodeKeyBytes
      rw [hpk]
      rfl
    · rw [hthreshold]
      rfl
  · unfold nodeKey at hok
    rw [hpk] at hok
    obtain ⟨pkBytes, hdecode, hok⟩ := Op.lift_bind_ok hok
    obtain ⟨id, mid, hfound, hok⟩ := Op.bind_ok hok
    obtain ⟨u, last, hcheck, hok⟩ := Op.bind_ok hok
    obtain ⟨rfl, rfl⟩ := Op.pure_ok hok
    obtain rfl := checkFingerprint_ok hcheck
    obtain rfl : raw = pkBytes := by
      unfold decodeKey at hdecode
      rw [hraw] at hdecode
      exact Except.ok.inj hdecode
    have hfound := getOrRegister_ok h hfound
    have hbytes : nodeKeyBytes node = some raw := by
      unfold nodeKeyBytes
      rw [hpk]
      exact hraw
    obtain ⟨key, hkey, rfl, htype, hpublic⟩ := hfound.key
    refine ⟨{ hfound with added other hother := ?_ }, fun id hid => ?_, ?_, ?_⟩
    · rw [hbytes]
      exact (hfound.added other hother).imp_right fun ⟨htype, heq⟩ => ⟨htype, by rw [heq]⟩
    · exact ⟨key, hkey, Option.some.inj hid, htype⟩
    · rw [hbytes, hfound.sound.keyBytes_of_mem hkey, hpublic]
    · rw [hthreshold]
      rfl

/-- The keys a snapshot names can be used in a store: they have their own fingerprint, none of
them is registered for signing, and no two keys have one fingerprint. -/
@[mk_iff]
structure UsableKeys (db : Store) (snapshot : PublicTree) : Prop where
  fingerprints : ∀ node ∈ snapshot.nodes, ∀ raw, nodeKeyBytes node = some raw →
    node.encryptionFingerprint = some (fingerprint raw)
  encryption : ∀ key ∈ db.hardwareKeys, ∀ node ∈ snapshot.nodes,
    nodeKeyBytes node = some key.publicKey → key.keyType = .encryption
  distinct : ∀ node ∈ snapshot.nodes, ∀ raw, nodeKeyBytes node = some raw →
    ∀ key ∈ db.hardwareKeys, key.fingerprint = fingerprint raw → key.publicKey = raw
  apart : ∀ node ∈ snapshot.nodes, ∀ other ∈ snapshot.nodes,
    ∀ raw, nodeKeyBytes node = some raw → ∀ raw', nodeKeyBytes other = some raw' →
    fingerprint raw = fingerprint raw' → raw = raw'

instance (db : Store) (snapshot : PublicTree) : Decidable (UsableKeys db snapshot) :=
  decidable_of_iff' _ (usableKeys_iff db snapshot)

theorem getOrRegister_run (hlength : publicKey.length = 32)
    (htype : ∀ key ∈ db.hardwareKeys, key.publicKey = publicKey → key.keyType = .encryption)
    (hnew : ∀ key ∈ db.hardwareKeys, key.fingerprint = fingerprint publicKey → key.publicKey = publicKey)
    :
    ∃ id db', getOrRegister label .encryption publicKey db = (.ok id, db') := by
  unfold getOrRegister
  rw [Op.require_bind (decide_eq_true hlength), Op.read_bind]
  cases hget : db.getKeyByPublicKey publicKey with
  | ok existing =>
    obtain ⟨hmem, hpublic⟩ := getKeyByPublicKey_ok hget
    dsimp only
    rw [if_neg (not_not.mpr (htype existing hmem hpublic))]
    exact ⟨_, _, rfl⟩
  | error e =>
    obtain ⟨rfl, hnone⟩ := getKeyByPublicKey_error hget
    dsimp only
    unfold registerKey
    rw [Op.require_bind (decide_eq_true hlength)]
    refine ⟨_, _, insertHardwareKey_ok.mpr ⟨fun hin => ?_, rfl, rfl⟩⟩
    obtain ⟨key, hkey, hfp⟩ := mem_map.mp hin
    exact hnone key hkey (hnew key hkey hfp)

theorem nodeKey_run (h : db.Sound) (hkeys : UsableKeys db snapshot) (hnode : node ∈ snapshot.nodes)
    (hshape : WellShaped node) : ∃ hardwareKeyId db', nodeKey node db = (.ok hardwareKeyId, db') := by
  unfold nodeKey
  rcases wellShaped_cases hshape with
    ⟨threshold, -, -, hfp, hpk⟩ | ⟨-, fp, pk, raw, hfp, hpk, hraw, hlength⟩
  · rw [hfp, hpk]
    exact ⟨_, _, rfl⟩
  · have hbytes : nodeKeyBytes node = some raw := by
      unfold nodeKeyBytes
      rw [hpk]
      exact hraw
    have hdecode : decodeKey pk = .ok raw := by
      unfold decodeKey
      rw [hraw]
    obtain ⟨id, mid, hfound⟩ := @getOrRegister_run _ db raw node.label hlength
      (fun key hkey heq => hkeys.encryption key hkey node hnode (by rw [heq, hbytes]))
      (hkeys.distinct node hnode raw hbytes)
    obtain ⟨key, hkey, rfl, -, hpublic⟩ := (getOrRegister_ok h hfound).key
    have hsound := (getOrRegister_ok h hfound).sound
    have hcheck : checkFingerprint key.id (some fp) mid = (.ok (), mid) := by
      rw [checkFingerprint, Op.read_bind, Op.lift_bind (hsound.getKey_of_mem hkey)]
      unfold Op.require
      rw [if_pos]
      have hfp' := hkeys.fingerprints node hnode raw hbytes
      rw [hfp] at hfp'
      rw [Option.some.inj hfp', (hsound.registered key hkey).2, hpublic]
      exact decide_eq_true rfl
    rw [hfp, hpk]
    dsimp only
    rw [Op.lift_bind hdecode, Op.bind_of_ok hfound, Op.bind_of_ok hcheck]
    exact ⟨_, _, rfl⟩

/-! ## §5. Writing one node. -/

structure Written (db db' : Store) (keyId : Nat) (node : PublicNode)
    (parentId hardwareKeyId : Option Nat) (row : NodeRow) : Prop where
  sound : db'.Sound
  frame : db' = { db with nodes := db'.nodes }
  mem : row ∈ db'.nodes
  isRow : IsRow keyId node.label row
  parentId_eq : row.parentId = parentId
  threshold_eq : row.threshold = node.threshold.map UInt8.toNat
  hardwareKeyId_eq : row.hardwareKeyId = hardwareKeyId
  isActive_eq : row.isActive = node.isActive
  rest : ∀ other, ¬ IsRow keyId node.label other → (other ∈ db'.nodes ↔ other ∈ db.nodes)
  inPlace : ∀ old ∈ db.nodes, IsRow keyId node.label old → row.id = old.id
    ∧ row.wrappedShare = (if old.hardwareKeyId = hardwareKeyId then old.wrappedShare else none)
    ∧ (node.threshold ≠ none → old.wrappedShare = none)
  new : (∀ old ∈ db.nodes, ¬ IsRow keyId node.label old) → row.wrappedShare = none

section

omit [Crypto]

theorem nodeIdForLabel_error (h : db.nodeIdForLabel keyId label = .error e) :
    ∀ row ∈ db.nodes, ¬ IsRow keyId label row := by
  unfold nodeIdForLabel at h
  split at h
  next => cases h
  next hfind => exact find_row_none.mp hfind

theorem appliedRow_check {parentId hardwareKeyId : Option Nat} {row : NodeRow}
    (hshape : WellShaped node) (hleaf : hardwareKeyId.isSome = node.threshold.isNone) :
    (appliedRow node parentId hardwareKeyId row).check
      ↔ (node.threshold ≠ none → row.wrappedShare = none) := by
  rcases wellShaped_cases hshape with ⟨threshold, hthreshold, hpos, -⟩ | ⟨hthreshold, -⟩
  · have hpos : 0 < threshold.toNat := UInt8.lt_iff_toNat_lt.mp hpos
    rw [hthreshold] at hleaf ⊢
    obtain rfl : hardwareKeyId = none := by simpa using hleaf
    unfold appliedRow NodeRow.check
    cases row.wrappedShare <;> simp [hthreshold, hpos]
  · rw [hthreshold] at hleaf ⊢
    obtain ⟨id, rfl⟩ := Option.isSome_iff_exists.mp hleaf
    unfold appliedRow NodeRow.check
    simp [hthreshold]

theorem newRow_check (hshape : WellShaped node) (hleaf : hardwareKeyId.isSome = node.threshold.isNone) :
    (newRow keyId node parentId hardwareKeyId).check := by
  let row := newRow keyId node parentId hardwareKeyId
  have h := (@appliedRow_check node parentId _ row hshape hleaf).mpr fun _ => rfl
  simpa [appliedRow, row, newRow] using h

end

variable (h : db.Sound) (hparent : ∀ parent, parentId = some parent →
  ∃ other ∈ db.nodes, other.id = parent ∧ other.keyId = keyId)

include h hparent

theorem written_of_insert (hnone : ∀ row ∈ db.nodes, ¬ IsRow keyId node.label row)
    (hok : insertNode (newRow keyId node parentId hardwareKeyId) db = (.ok id, db')) :
    Written db db' keyId node parentId hardwareKeyId
      { newRow keyId node parentId hardwareKeyId with id } := by
  have hsound : db'.Sound := by
    refine h.insertNode hok (fun other hother hkey hlabel => ?_) hparent
    exact hnone other hother ⟨hkey, hlabel⟩
  obtain ⟨-, -, hdb⟩ := insertNode_ok.mp hok
  have hnodes : db'.nodes = db.nodes ++ [{ newRow keyId node parentId hardwareKeyId with id }] := by
    rw [hdb]
  refine ⟨hsound, by rw [hdb], ?_, ⟨rfl, rfl⟩, rfl, rfl, rfl, rfl, fun other hother => ?_,
    fun old hold hisRow => absurd hisRow (hnone old hold), fun _ => rfl⟩
  · rw [hnodes]
    exact mem_concat_self
  · rw [hnodes, mem_append, mem_singleton, or_iff_left]
    rintro rfl
    exact hother ⟨rfl, rfl⟩

variable (hshape : WellShaped node) (hleaf : hardwareKeyId.isSome = node.threshold.isNone)

include hshape hleaf

theorem written_of_update (hold : old ∈ db.nodes) (hisRow : IsRow keyId node.label old)
    (hok : updateNode old.id (appliedRow node parentId hardwareKeyId) db = (.ok u, db')) :
    Written db db' keyId node parentId hardwareKeyId (appliedRow node parentId hardwareKeyId old) := by
  obtain ⟨hchecks, hdb⟩ := updateNode_ok.mp hok
  have hunsealed := (appliedRow_check hshape hleaf).mp (hchecks old hold rfl).1
  have hnodes : db'.nodes = db.nodes.map fun row =>
      if row.id = old.id then appliedRow node parentId hardwareKeyId row else row := by rw [hdb]
  have hsound : db'.Sound := by
    refine h.updateNode hok (fun row => ⟨rfl, rfl, rfl⟩) fun row hrow hid parent hp => ?_
    rw [h.row_unique hrow hold hid, hisRow.1]
    exact hparent parent hp
  -- a leaf's key is set; a split has no share to keep
  have hcases : (∃ id, hardwareKeyId = some id) ∨ old.wrappedShare = none := by
    cases hsplit : node.threshold with
    | none =>
      rw [hsplit] at hleaf
      exact .inl (Option.isSome_iff_exists.mp hleaf)
    | some threshold => exact .inr (hunsealed (by rw [hsplit]; simp))
  have hkey : (appliedRow node parentId hardwareKeyId old).hardwareKeyId = hardwareKeyId := by
    show (if old.wrappedShare.isSome && hardwareKeyId.isNone then _ else _) = hardwareKeyId
    rcases hcases with ⟨id, rfl⟩ | hnone
    · simp
    · simp [hnone]
  have hshare : (appliedRow node parentId hardwareKeyId old).wrappedShare
      = if old.hardwareKeyId = hardwareKeyId then old.wrappedShare else none := by
    show (if hardwareKeyId.isSome && decide (hardwareKeyId ≠ old.hardwareKeyId) then none
      else old.wrappedShare) = _
    rcases hcases with ⟨id, rfl⟩ | hnone
    · by_cases heq : old.hardwareKeyId = some id
      · simp [heq]
      · simp [heq, Ne.symm heq]
    · simp [hnone]
  refine ⟨hsound, by rw [hdb], ?_, hisRow, rfl, rfl, hkey, rfl, fun other hother => ?_,
    fun row hrow hrowIs => ?_, fun hnone => absurd hisRow (hnone old hold)⟩
  · rw [hnodes]
    exact mem_map.mpr ⟨old, hold, if_pos rfl⟩
  · rw [hnodes, mem_map]
    constructor
    · rintro ⟨row, hrow, rfl⟩
      by_cases hid : row.id = old.id
      · rw [if_pos hid, h.row_unique hrow hold hid] at hother
        exact absurd hisRow hother
      · rw [if_neg hid]
        exact hrow
    · intro hmem
      refine ⟨other, hmem, if_neg fun hid => hother ?_⟩
      rw [h.row_unique hmem hold hid]
      exact hisRow
  · obtain rfl := h.isRow_unique hrow hold hrowIs hisRow
    exact ⟨rfl, hshare, hunsealed⟩

theorem writeNode_ok (hok : writeNode keyId node parentId hardwareKeyId db = (.ok u, db')) :
    ∃ row, Written db db' keyId node parentId hardwareKeyId row := by
  have hok := Op.read_bind_ok hok
  cases hid : db.nodeIdForLabel keyId node.label with
  | ok id =>
    rw [hid] at hok
    obtain ⟨old, hold, hisRow, rfl⟩ := nodeIdForLabel_ok hid
    exact ⟨_, written_of_update h hparent hshape hleaf hold hisRow hok⟩
  | error e =>
    rw [hid] at hok
    obtain ⟨id, mid, hinsert, hok⟩ := Op.bind_ok hok
    obtain ⟨-, rfl⟩ := Op.pure_ok hok
    exact ⟨_, written_of_insert h hparent (nodeIdForLabel_error hid) hinsert⟩

theorem writeNode_run (hkeyId : keyId ∈ db.keys.map KeyRow.id)
    (hhardware : ∀ id, hardwareKeyId = some id →
      ∃ key ∈ db.hardwareKeys, key.id = id ∧ key.keyType = .encryption)
    (hunsealed : node.threshold ≠ none → ∀ old ∈ db.nodes, IsRow keyId node.label old →
      old.wrappedShare = none) :
    ∃ db', writeNode keyId node parentId hardwareKeyId db = (.ok (), db') := by
  have hparentIn : ∀ parent, parentId = some parent → parent ∈ db.nodes.map NodeRow.id := by
    intro parent hp
    obtain ⟨other, hother, rfl, -⟩ := hparent parent hp
    exact mem_map_of_mem hother
  unfold writeNode
  rw [Op.read_bind]
  cases hid : db.nodeIdForLabel keyId node.label with
  | ok id =>
    obtain ⟨old, hold, hisRow, rfl⟩ := nodeIdForLabel_ok hid
    refine ⟨_, updateNode_ok.mpr ⟨fun row hrow hrowId => ?_, rfl⟩⟩
    rw [h.row_unique hrow hold hrowId]
    have hcheck := (@appliedRow_check node parentId _ old hshape hleaf).mpr fun hsplit =>
      hunsealed hsplit old hold hisRow
    refine ⟨hcheck, references_iff.mpr ⟨?_, hparentIn, fun id hid => ?_⟩⟩
    · show old.keyId ∈ _
      rw [hisRow.1]
      exact hkeyId
    · change (if old.wrappedShare.isSome && hardwareKeyId.isNone then old.hardwareKeyId
        else hardwareKeyId) = some id at hid
      split at hid
      · exact h.nodeHardware old hold id hid
      · exact hhardware id hid
  | error e =>
    dsimp only
    rw [Op.bind_of_ok (insertNode_ok.mpr ⟨⟨newRow_check hshape hleaf,
      references_iff.mpr ⟨hkeyId, hparentIn, hhardware⟩⟩, rfl, rfl⟩)]
    exact ⟨_, rfl⟩

end Apply

end Store

end KeyQuorum
