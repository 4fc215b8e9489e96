/-
  **TAKING LEAVES OUT AND IN** (`evict_and_refresh` and
  `add_leaf_and_reshare` in `key_tree.rs`).

  Both run in a transaction.  An evicted leaf stays in the table, inactive
  and without whitelist entries or links; the remaining leaves below its
  parent get refreshed shares.  A new leaf gets a share of a new dealing of
  the parent's secret, together with the leaves that are there.
-/
import KeyQuorum.KeyTree.Export
import KeyQuorum.KeyTree.Split

namespace KeyQuorum

open List Foundation

/-! ## §1. The operations. -/

namespace KeyQuorumTree

/-- The active leaves among some children; an active split is the error of the operation. -/
def activeLeaves (tree : KeyQuorumTree) (without : Option Nat) (refusal : Error) :
    List Nat → Except Error (List KeyNode)
  | [] => .ok []
  | child :: rest =>
    if without = some child then activeLeaves tree without refusal rest
    else match tree.nodes[child]? with
      | none => .error .nodeNotFound
      | some node =>
        if !node.isActive then activeLeaves tree without refusal rest
        else if node.hardwareKeyId.isNone then .error refusal
        else do
          let more ← activeLeaves tree without refusal rest
          .ok (node :: more)

/-- The checks of `evict_and_refresh` on the tree: the parent's threshold and the survivors. -/
def survivors (tree : KeyQuorumTree) (evictedIdx : Nat) : Except Error (Nat × List KeyNode) :=
  match tree.nodes[evictedIdx]? with
  | none => .error .nodeNotFound
  | some evicted =>
    if !evicted.isActive || evicted.hardwareKeyId.isNone then .error .cannotEvict
    else match evicted.parentIdx.bind fun i => tree.nodes[i]? with
      | none => .error .cannotEvict
      | some parent =>
        match parent.threshold with
        | none => .error .cannotEvict
        | some threshold =>
          if threshold < 2 then .error .cannotEvict
          else do
            let survivors ← activeLeaves tree (some evictedIdx) .cannotEvict parent.childrenIndices
            if survivors.length < threshold then .error .cannotEvict
            else .ok (threshold, survivors)

/-- The checks of `add_leaf_and_reshare` on the tree: the parent, its threshold and its leaves. -/
def resharing (tree : KeyQuorumTree) (parentIdx : Nat) :
    Except Error (KeyNode × Nat × List KeyNode) :=
  match tree.nodes[parentIdx]? with
  | none => .error .nodeNotFound
  | some parent =>
    match parent.threshold with
    | none => .error .cannotAddLeaf
    | some threshold => do
        let leaves ← activeLeaves tree none .cannotAddLeaf parent.childrenIndices
        if leaves.length + 1 > 255 || threshold > leaves.length + 1 then .error .cannotAddLeaf
        else .ok (parent, threshold, leaves)

end KeyQuorumTree

/-- The shares that were read, in `recover_secret`. -/
def readShares : List Bytes → Except Error (List Share)
  | [] => .ok []
  | raw :: rest =>
    match Share.ofBytes raw with
    | none => .error .quorumNotMet
    | some share => do
        let more ← readShares rest
        .ok (share :: more)

def requireRecoverableShareCoordinates (rawShares : List Bytes) : Except Error Unit :=
  if rawShares.any List.isEmpty then .error .shareShapeMismatch
  else requireDistinctNonzeroXs (rawShares.filterMap List.head?)

def recoverSecret [Sharks] (threshold : Nat) (rawShares : List Bytes) : Except Error Bytes := do
  requireRecoverableShareCoordinates rawShares
  let shares ← readShares rawShares
  match Sharks.recover threshold shares with
  | some secret => .ok secret
  | none => .error .quorumNotMet

namespace Store

def deleteNodeBindings (keyId nodeId : Nat) : Db Unit := do
  let db ← Op.read
  match db.nodes.find? fun row => row.id = nodeId && row.keyId = keyId with
  | none => Op.lift (.error .database)
  | some node => do
      deleteLinks fun _ link => link.nodeAId = nodeId || link.nodeBId = nodeId
      deleteBridges fun db bridge => bridge.nodeId = nodeId
        || (bridge.peerLabel = node.label
          && db.nodes.any fun row => row.keyId = keyId && row.id = bridge.nodeId)

structure Survivor where
  node : KeyNode
  hardwareKey : HardwareKey
  share : Bytes

def presentedShares (db : Store) (rawShares : Nat → Option Bytes) :
    List KeyNode → Except Error (List Survivor)
  | [] => .ok []
  | node :: rest =>
    match rawShares node.dbId, node.hardwareKeyId with
    | none, _ => .error .quorumNotMet
    | some _, none => .error .cannotEvict
    | some raw, some hardwareKeyId => do
        let hardwareKey ← db.getActiveEncryptionKey hardwareKeyId
        let more ← presentedShares db rawShares rest
        .ok (⟨node, hardwareKey, raw⟩ :: more)

section Operations

variable [Sharks] [SealedBoxes]

/-- `UPDATE key_nodes SET wrapped_share = .. WHERE id = ..`, with a new seal. -/
def reseal (nodeId : Nat) (hardwareKey : HardwareKey) (share : Bytes) (seed : Nat) : Db Unit := do
  let wrapped ← Op.lift (sealShare hardwareKey share seed)
  updateNode nodeId fun row => { row with wrappedShare := some wrapped }

/-- The last loop of `evict_and_refresh`. -/
def resealSurvivors (rng : String → Nat) : List Survivor → List Bytes → Db Unit
  | survivor :: survivors, share :: shares => do
      reseal survivor.node.dbId survivor.hardwareKey share (rng survivor.node.id)
      resealSurvivors rng survivors shares
  | _, _ => pure ()

/-- `evict_and_refresh`; `onLeafRemoved` is what the private bridges answer, `rounds` and `rng` are
the randomness of the blinding polynomials and of the seals. -/
def evictAndRefresh (rounds : Nat → Nat) (rng : String → Nat) (onLeafRemoved : Except Error Unit)
    (keyId evictedNodeId : Nat) (survivorRawShares : Nat → Option Bytes) : Db Unit :=
  Db.transaction do
    let db ← Op.read
    let tree ← Op.lift (KeyQuorumTree.load db keyId)
    let evictedIdx ← Op.lift (tree.indexByDbId evictedNodeId)
    let (threshold, nodes) ← Op.lift (tree.survivors evictedIdx)
    let survivors ← Op.lift (db.presentedShares survivorRawShares nodes)
    let shares ← Op.lift (refreshAmong rounds (threshold % 256) (survivors.map Survivor.share))
    updateNode evictedNodeId fun row => { row with isActive := false }
    deleteNodeBindings keyId evictedNodeId
    Op.lift onLeafRemoved
    resealSurvivors rng survivors shares

/-- The loop of `add_leaf_and_reshare` over the leaves that are there. -/
def resealLeaves (rng : String → Nat) : List KeyNode → List Share → Db Unit
  | node :: nodes, share :: shares => do
      match node.hardwareKeyId with
      | none => Op.lift (.error .cannotAddLeaf)
      | some hardwareKeyId => do
          let db ← Op.read
          let hardwareKey ← Op.lift (db.getActiveEncryptionKey hardwareKeyId)
          reseal node.dbId hardwareKey share.toBytes (rng node.id)
      resealLeaves rng nodes shares
  | _, _ => pure ()

/-- The end of `add_leaf_and_reshare`: the new leaf with the last share. -/
def insertLeaf (rng : String → Nat) (keyId parentId : Nat) (label : String) (hardwareKeyId : Nat)
    (share : Share) : Db Nat := do
  let db ← Op.read
  let hardwareKey ← Op.lift (db.getActiveEncryptionKey hardwareKeyId)
  let wrapped ← Op.lift (sealShare hardwareKey share.toBytes (rng label))
  insertNode
    { id := 0, keyId, parentId := some parentId, label, threshold := none,
      hardwareKeyId := some hardwareKeyId, wrappedShare := some wrapped }

def addLeafAndReshare (rng : String → Nat) (keyId : Nat) (parentLabel newLabel : String)
    (newHardwareId : Nat) (presented : Nat → Option Bytes) : Db Nat := do
  Op.require (newLabel ≠ "") .duplicateNodeLabel
  Db.transaction do
    let db ← Op.read
    let tree ← Op.lift (KeyQuorumTree.load db keyId)
    Op.require (!tree.nodes.any fun node => node.id = newLabel) .duplicateNodeLabel
    let parentIdx ← Op.lift (tree.indexByLabel parentLabel)
    let (parent, threshold, leaves) ← Op.lift (tree.resharing parentIdx)
    let rawShares := leaves.filterMap fun node => presented node.dbId
    Op.require (threshold ≤ rawShares.length) .quorumNotMet
    let secret ← Op.lift (recoverSecret (threshold % 256) rawShares)
    let _ ← Op.lift (db.getActiveEncryptionKey newHardwareId)
    let shares := Sharks.deal (threshold % 256) secret (rng parentLabel) (leaves.length + 1)
    Op.require (shares.length = leaves.length + 1) .invalidQuorumThreshold
    resealLeaves rng leaves shares
    match shares[leaves.length]? with
    | none => Op.lift (.error .invalidQuorumThreshold)
    | some share => insertLeaf rng keyId parent.dbId newLabel newHardwareId share

end Operations

/-! ## §2. What new seals keep. -/

section Keep

variable [Crypto] {db mid db' : Store} {keyId : Nat}

structure KeepsRows (db db' : Store) : Prop where
  sound : db.Sound → db'.Sound
  keys : db'.keys = db.keys
  bridges : db'.bridges = db.bridges
  links : db'.links = db.links
  shape : ∀ keyId, db'.shape keyId = db.shape keyId

instance : IsPreorder Store KeepsRows where
  refl _ := ⟨id, rfl, rfl, rfl, fun _ => rfl⟩
  trans _ _ _ hfirst hsecond :=
    ⟨hsecond.sound ∘ hfirst.sound, hsecond.keys.trans hfirst.keys,
      hsecond.bridges.trans hfirst.bridges, hsecond.links.trans hfirst.links,
      fun keyId => (hsecond.shape keyId).trans (hfirst.shape keyId)⟩

omit [Crypto] in
theorem updateNode_atomic (id : Nat) (change : NodeRow → NodeRow) : Op.Atomic (updateNode id change) :=
  .read_bind fun _ => .require_bind (.modify _)

theorem updateNode_keepsRows (id : Nat)
    (hsame : ∀ row, (change row).id = row.id ∧ (change row).keyId = row.keyId
      ∧ (change row).parentId = row.parentId ∧ (change row).label = row.label
      ∧ (change row).threshold = row.threshold) : Op.Moves KeepsRows (updateNode id change) := by
  refine .of_atomic (updateNode_atomic id change) fun db u db' hok => ?_
  obtain ⟨-, hdb⟩ := updateNode_ok.mp hok
  refine ⟨fun h => ?_, by rw [hdb], by rw [hdb], by rw [hdb], fun keyId => ?_⟩
  · refine h.updateNode hok (fun row => ⟨(hsame row).1, (hsame row).2.1, (hsame row).2.2.2.1⟩)
      fun row hrow _ parent hparent => ?_
    rw [(hsame row).2.2.1] at hparent
    exact h.nodeParents row hrow parent hparent
  · -- a row and what it becomes agree in the columns of the shape
    have hcolumns : ∀ row : NodeRow, (if row.id = id then change row else row).keyId = row.keyId
        ∧ (if row.id = id then change row else row).id = row.id
        ∧ (if row.id = id then change row else row).parentId = row.parentId
        ∧ (if row.id = id then change row else row).label = row.label
        ∧ (if row.id = id then change row else row).threshold = row.threshold := by
      intro row
      obtain ⟨h₁, h₂, h₃, h₄, h₅⟩ := hsame row
      split
      · exact ⟨h₂, h₁, h₃, h₄, h₅⟩
      · exact ⟨rfl, rfl, rfl, rfl, rfl⟩
    funext id' parent label threshold
    rw [hdb]
    simp only [Store.shape, mem_map, exists_exists_and_eq_and, hcolumns]

section Seals

variable [SealedBoxes]

theorem reseal_moves (nodeId : Nat) (hardwareKey : HardwareKey) (share : Bytes) (seed : Nat) :
    Op.Moves KeepsRows (reseal nodeId hardwareKey share seed) :=
  .lift_bind fun _ => updateNode_keepsRows nodeId fun _ => ⟨rfl, rfl, rfl, rfl, rfl⟩

theorem resealSurvivors_moves (rng : String → Nat) (survivors : List Survivor) (shares : List Bytes) :
    Op.Moves KeepsRows (resealSurvivors rng survivors shares) := by
  induction survivors generalizing shares with
  | nil => exact .pure ()
  | cons survivor survivors ih =>
    cases shares with
    | nil => exact .pure ()
    | cons share shares => exact .bind (reseal_moves _ _ _ _) fun _ => ih shares

theorem resealLeaves_moves (rng : String → Nat) (nodes : List KeyNode) (shares : List Share) :
    Op.Moves KeepsRows (resealLeaves rng nodes shares) := by
  induction nodes generalizing shares with
  | nil => exact .pure ()
  | cons node nodes ih =>
    cases shares with
    | nil => exact .pure ()
    | cons share shares =>
      rw [resealLeaves]
      split
      next => exact .lift_bind fun _ => ih shares
      next hardwareKeyId hkey =>
        exact .read_bind fun _ => .lift_bind fun _ =>
          .bind (reseal_moves _ _ _ _) fun _ => ih shares

end Seals

/-! ## §3. Adding a leaf. -/

section Add

omit [Crypto] in
theorem resharing_ok {tree : KeyQuorumTree}
    (h : tree.resharing parentIdx = .ok (parent, threshold, leaves)) :
    tree.nodes[parentIdx]? = some parent := by
  unfold KeyQuorumTree.resharing at h
  split at h
  next => cases h
  next node hnode =>
    split at h
    next => cases h
    next =>
      obtain ⟨leaves, -, h⟩ := try_ok h
      obtain ⟨-, h⟩ := else_ok h
      cases h
      exact hnode

variable [Sharks] [SealedBoxes]

/-- **What adding a leaf leaves**: new seals, and a row of a label that was not in the tree, below
a node of it. -/
theorem addLeafAndReshare_ok {rng : String → Nat} {parentLabel newLabel : String}
    {newHardwareId id : Nat} {presented : Nat → Option Bytes}
    (hok : addLeafAndReshare rng keyId parentLabel newLabel newHardwareId presented db = (.ok id, db')) :
    newLabel ≠ "" ∧ (∀ row ∈ db.nodes, ¬ IsRow keyId newLabel row)
      ∧ ∃ mid wrapped, KeepsRows db mid ∧ ∃ parent ∈ db.nodes, parent.keyId = keyId ∧ insertNode
            { id := 0, keyId, parentId := some parent.id, label := newLabel,
              threshold := none, hardwareKeyId := some newHardwareId, wrappedShare := some wrapped }
            mid = (.ok id, db') := by
  obtain ⟨hne, hok⟩ := Op.require_bind_ok hok
  have hok := Op.read_bind_ok (Db.transaction_ok hok)
  obtain ⟨tree, hload, hok⟩ := Op.lift_bind_ok hok
  obtain ⟨hnew, hok⟩ := Op.require_bind_ok hok
  obtain ⟨parentIdx, hindex, hok⟩ := Op.lift_bind_ok hok
  obtain ⟨⟨parent, threshold, leaves⟩, hresharing, hok⟩ := Op.lift_bind_ok hok
  obtain ⟨-, hok⟩ := Op.require_bind_ok hok
  obtain ⟨secret, -, hok⟩ := Op.lift_bind_ok hok
  obtain ⟨_, -, hok⟩ := Op.lift_bind_ok hok
  obtain ⟨-, hok⟩ := Op.require_bind_ok hok
  obtain ⟨_, mid, hseals, hok⟩ := Op.bind_ok hok
  have hkeeps : KeepsRows db mid := by
    have hmoves := resealLeaves_moves rng leaves
      (Sharks.deal (threshold % 256) secret (rng parentLabel) (leaves.length + 1)) db
    rw [hseals] at hmoves
    exact hmoves
  obtain ⟨row, hmem, ⟨hkey, -⟩, -, hnode⟩ := indexByLabel_row hload hindex
  have hparent : parent.dbId = row.id := by
    rw [Option.some.inj ((resharing_ok hresharing).symm.trans hnode)]
    rfl
  refine ⟨of_decide_eq_true hne, fun other hother hisRow => ?_, mid, ?_⟩
  · obtain ⟨i, hi⟩ := indexByLabel_of_row hload hother hisRow
    obtain ⟨found, -, hfoundRow, -, hfound⟩ := indexByLabel_row hload hi
    rw [Bool.not_eq_true', any_eq_false] at hnew
    exact hnew _ (mem_of_getElem? hfound) (decide_eq_true hfoundRow.2)
  · cases hshare : (Sharks.deal (threshold % 256) secret (rng parentLabel)
        (leaves.length + 1))[leaves.length]? with
    | none =>
      rw [hshare] at hok
      cases hok
    | some share =>
      rw [hshare] at hok
      obtain ⟨hardwareKey, -, hok⟩ := Op.lift_bind_ok (Op.read_bind_ok hok)
      obtain ⟨wrapped, -, hok⟩ := Op.lift_bind_ok hok
      rw [hparent] at hok
      exact ⟨wrapped, hkeeps, row, hmem, hkey, hok⟩

end Add

end Keep

end Store

end KeyQuorum
