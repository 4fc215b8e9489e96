/-
  **WHITELIST AND PAIRINGS OF A TREE** (`allow_bridge`, `deny_bridge`,
  `add_bridge`, `remove_bridge`, `bind_pair` and `list_bridges` in
  `key_tree.rs`).

  Nodes are named by label within their tree.  None of these operations
  runs in a transaction of its own, so what they did before an error stays.
-/
import KeyQuorum.KeyTree.Arena
import KeyQuorum.Store.Statements

namespace KeyQuorum

open List Foundation
open KeyQuorumTree (getElem?_loadNodes keyNode load loadNodes load_ok)

namespace Store

/-! ## §1. Operations. -/

def orderedPair (a b : Nat) : Except Error LinkRow :=
  if a = b then .error .invalidBridge else if a < b then .ok ⟨a, b⟩ else .ok ⟨b, a⟩

def allowBridge (keyId : Nat) (nodeLabel peerLabel : String) : Db Unit := do
  Op.require (nodeLabel ≠ peerLabel) .invalidBridge
  let db ← Op.read
  let nodeId ← Op.lift (db.nodeIdForLabel keyId nodeLabel)
  let _ ← Op.lift (db.nodeIdForLabel keyId peerLabel)
  insertBridgeOrIgnore ⟨nodeId, peerLabel⟩

def denyBridge (keyId : Nat) (nodeLabel peerLabel : String) : Db Unit := do
  let db ← Op.read
  let nodeId ← Op.lift (db.nodeIdForLabel keyId nodeLabel)
  let peerId ← Op.lift (db.nodeIdForLabel keyId peerLabel)
  deleteBridges fun _ bridge =>
    (bridge.nodeId = nodeId && bridge.peerLabel = peerLabel)
      || (bridge.nodeId = peerId && bridge.peerLabel = nodeLabel)
  match orderedPair nodeId peerId with
  | .ok pair => deleteLinks fun _ link => link = pair
  | .error _ => pure ()

/-- The end of `add_bridge`, with the two nodes found. -/
def linkNodes (a b : KeyNode) (fromLabel toLabel : String) : Db Unit := do
  Op.require (a.allowedBridges.contains toLabel || b.allowedBridges.contains fromLabel)
    .bridgeNotWhitelisted
  let link ← Op.lift (orderedPair a.dbId b.dbId)
  insertLinkOrIgnore link

def addBridge (keyId : Nat) (fromLabel toLabel : String) : Db Unit := do
  let db ← Op.read
  let tree ← Op.lift (load db keyId)
  let idxA ← Op.lift (tree.indexByLabel fromLabel)
  let idxB ← Op.lift (tree.indexByLabel toLabel)
  Op.require (idxA ≠ idxB) .invalidBridge
  match tree.nodes[idxA]?, tree.nodes[idxB]? with
  | some a, some b => linkNodes a b fromLabel toLabel
  | _, _ => Op.lift (.error .nodeNotFound)

def removeBridge (keyId : Nat) (fromLabel toLabel : String) : Db Unit := do
  let db ← Op.read
  let a ← Op.lift (db.nodeIdForLabel keyId fromLabel)
  let b ← Op.lift (db.nodeIdForLabel keyId toLabel)
  let pair ← Op.lift (orderedPair a b)
  deleteLinks fun _ link => link = pair
  Op.require (db.links.contains pair) .bridgeNotFound

def bindPair (keyId : Nat) (aLabel bLabel : String) : Db Unit := do
  allowBridge keyId aLabel bLabel
  allowBridge keyId bLabel aLabel
  addBridge keyId aLabel bLabel

/-! ## §2. Labels and ids. -/

section Names

variable [Crypto] {db : Store} {keyId : Nat} {a b : NodeRow}

theorem Sound.row_unique (h : db.Sound) (ha : a ∈ db.nodes) (hb : b ∈ db.nodes) (hid : a.id = b.id) :
    a = b := by
  have hnodup : (db.nodes.map NodeRow.id).Nodup := by
    rw [nodup_iff_pairwise_ne, pairwise_map]
    exact h.nodeIds.imp fun hlt => Nat.ne_of_lt hlt
  exact inj_on_of_nodup_map hnodup ha hb hid

def IsRow (keyId : Nat) (label : String) (row : NodeRow) : Prop :=
  row.keyId = keyId ∧ row.label = label

instance (keyId : Nat) (label : String) (row : NodeRow) : Decidable (IsRow keyId label row) :=
  inferInstanceAs (Decidable (_ ∧ _))

variable {label : String} {row : NodeRow}

theorem Sound.isRow_unique (h : db.Sound) (ha : a ∈ db.nodes) (hb : b ∈ db.nodes)
    (haRow : IsRow keyId label a) (hbRow : IsRow keyId label b) : a = b :=
  h.nodeLabels a ha b hb (haRow.1.trans hbRow.1.symm) (haRow.2.trans hbRow.2.symm)

omit [Crypto] in
theorem nodeIdForLabel_ok {id : Nat} (h : db.nodeIdForLabel keyId label = .ok id) :
    ∃ row ∈ db.nodes, IsRow keyId label row ∧ row.id = id := by
  unfold nodeIdForLabel at h
  split at h
  next row hfind =>
    have hfound := List.find?_some hfind
    simp only [Bool.and_eq_true, decide_eq_true_eq] at hfound
    exact ⟨row, mem_of_find?_eq_some hfind, hfound, Except.ok.inj h⟩
  next => cases h

theorem Sound.find_row (h : db.Sound) (hrow : row ∈ db.nodes) (hisRow : IsRow keyId label row) :
    db.nodes.find? (fun row => row.keyId = keyId && row.label = label) = some row := by
  refine find?_of_unique hrow (by simp [hisRow.1, hisRow.2]) fun found hin hfound => ?_
  simp only [Bool.and_eq_true, decide_eq_true_eq] at hfound
  exact h.isRow_unique hin hrow hfound hisRow

omit [Crypto] in
theorem find_row_none : db.nodes.find? (fun row => row.keyId = keyId && row.label = label) = none
    ↔ ∀ row ∈ db.nodes, ¬ IsRow keyId label row := by
  simp [List.find?_eq_none, IsRow]

theorem Sound.nodeIdForLabel (h : db.Sound) (hrow : row ∈ db.nodes) (hisRow : IsRow keyId label row) :
    db.nodeIdForLabel keyId label = .ok row.id := by
  unfold Store.nodeIdForLabel
  rw [h.find_row hrow hisRow]

theorem Sound.labels_nodup (h : db.Sound) (keyId : Nat) :
    ((db.treeNodes keyId).map NodeRow.label).Nodup := by
  rw [h.treeNodes_eq]
  refine List.Nodup.map_on (fun a ha b hb hlabel => ?_) ?_
  · obtain ⟨haMem, haKey⟩ := mem_filter.mp ha
    obtain ⟨hbMem, hbKey⟩ := mem_filter.mp hb
    refine h.nodeLabels a haMem b hbMem ?_ hlabel
    rw [of_decide_eq_true haKey, of_decide_eq_true hbKey]
  · rw [nodup_iff_pairwise_ne]
    refine (h.nodeIds.filter _).imp ?_
    rintro a _ hlt rfl
    exact Nat.lt_irrefl _ hlt

theorem Sound.load_of_root (h : db.Sound) (hroot : root ∈ db.nodes) (hkey : root.keyId = keyId)
    (hnone : root.parentId = none) : ∃ tree, load db keyId = .ok tree := by
  have hmem : root ∈ db.treeNodes keyId := mem_treeNodes.mpr ⟨hroot, hkey⟩
  unfold load
  dsimp only
  rw [if_neg (by simpa using ne_nil_of_mem hmem), if_neg (not_not.mpr (h.labels_nodup keyId)), if_neg]
  · obtain ⟨i, hi, hget⟩ := getElem_of_mem hmem
    have hsome : ((loadNodes (db.treeNodes keyId) db.bridges).findIdx?
        (fun node => node.parentIdx.isNone)).isSome := by
      rw [findIdx?_isSome, any_eq_true]
      have hnode := @getElem?_loadNodes (db.treeNodes keyId) db.bridges i
      rw [getElem?_eq_getElem hi, hget] at hnode
      refine ⟨_, mem_of_getElem? hnode, ?_⟩
      show (KeyQuorumTree.parentIndex (db.treeNodes keyId) i).isNone
      unfold KeyQuorumTree.parentIndex
      rw [getElem?_eq_getElem hi, hget, Option.bind_some, hnone]
      rfl
    obtain ⟨index, hindex⟩ := Option.isSome_iff_exists.mp hsome
    exact ⟨_, by rw [hindex]⟩
  · rw [any_eq_true]
    rintro ⟨row, hrow, hany⟩
    rw [Option.any_eq_true] at hany
    obtain ⟨parent, hparent, hmissing⟩ := hany
    obtain ⟨hrowMem, hrowKey⟩ := mem_treeNodes.mp hrow
    obtain ⟨other, hother, hid, hsame⟩ := h.nodeParents row hrowMem parent hparent
    rw [Option.isNone_iff_eq_none, KeyQuorumTree.rowIndex, findIdx?_eq_none_iff] at hmissing
    exact absurd (hmissing other (mem_treeNodes.mpr ⟨hother, hsame.trans hrowKey⟩)) (by simpa using hid)

omit [Crypto] in
theorem orderedPair_ok {a b : Nat} (h : orderedPair a b = .ok link) :
    link.nodeAId < link.nodeBId ∧ (link = ⟨a, b⟩ ∨ link = ⟨b, a⟩) := by
  unfold orderedPair at h
  obtain ⟨hne, h⟩ := else_ok h
  split at h
  next hlt =>
    cases h
    exact ⟨hlt, .inl rfl⟩
  next hnot =>
    cases h
    exact ⟨by simp only; omega, .inr rfl⟩

omit [Crypto] in
theorem orderedPair_of_ne {a b : Nat} (h : a ≠ b) : ∃ link, orderedPair a b = .ok link := by
  unfold orderedPair
  rw [if_neg h]
  split <;> exact ⟨_, rfl⟩

end Names

/-! ## §3. When they succeed. -/

section Runs

variable [Crypto] {db : Store} {keyId : Nat} {fromLabel toLabel : String}

theorem allowBridge_run (h : db.Sound) (hnode : node ∈ db.nodes) (hpeer : peer ∈ db.nodes)
    (hnodeRow : IsRow keyId fromLabel node) (hpeerRow : IsRow keyId toLabel peer)
    (hne : fromLabel ≠ toLabel) :
    allowBridge keyId fromLabel toLabel db = (.ok (), db.withBridge ⟨node.id, toLabel⟩) := by
  unfold allowBridge
  rw [Op.require_bind (decide_eq_true hne), Op.read_bind,
    Op.lift_bind (h.nodeIdForLabel hnode hnodeRow), Op.lift_bind (h.nodeIdForLabel hpeer hpeerRow)]
  exact insertBridgeOrIgnore_run (mem_map_of_mem hnode)

section

omit [Crypto]

variable {row : NodeRow} {tree : KeyQuorumTree}

theorem mem_allowedBridges {rows : List NodeRow} {bridges : List BridgeRow} {i : Nat} {peer : String} :
    peer ∈ (keyNode rows bridges row i).allowedBridges ↔ ⟨row.id, peer⟩ ∈ bridges := by
  show peer ∈ (bridges.filter fun bridge => bridge.nodeId = row.id).map BridgeRow.peerLabel ↔ _
  rw [mem_map]
  constructor
  · rintro ⟨bridge, hbridge, rfl⟩
    obtain ⟨hmem, hid⟩ := mem_filter.mp hbridge
    rw [← (decide_eq_true_eq.mp hid)]
    exact hmem
  · intro hmem
    exact ⟨_, mem_filter.mpr ⟨hmem, by simp⟩, rfl⟩

theorem indexByLabel_row (hload : load db keyId = .ok tree) (h : tree.indexByLabel label = .ok i) :
    ∃ row ∈ db.nodes, IsRow keyId label row ∧ (db.treeNodes keyId)[i]? = some row
      ∧ tree.nodes[i]? = some (keyNode (db.treeNodes keyId) db.bridges row i) := by
  unfold KeyQuorumTree.indexByLabel at h
  split at h
  next j hfind =>
    obtain rfl := Except.ok.inj h
    obtain ⟨hlt, hlabel, -⟩ := findIdx?_eq_some_iff_getElem.mp hfind
    obtain ⟨node, hnode⟩ : ∃ node, tree.nodes[j]? = some node := ⟨_, getElem?_eq_getElem hlt⟩
    have hid : node.id = label := by
      rw [getElem?_eq_getElem hlt] at hnode
      rw [← Option.some.inj hnode]
      exact of_decide_eq_true hlabel
    have hmap := hnode
    rw [(load_ok hload).nodes, getElem?_loadNodes] at hmap
    obtain ⟨row, hrow, rfl⟩ := Option.map_eq_some_iff.mp hmap
    obtain ⟨hmem, hkey⟩ := mem_treeNodes.mp (mem_of_getElem? hrow)
    exact ⟨row, hmem, ⟨hkey, hid⟩, hrow, hnode⟩
  next => exact absurd h (by simp)

theorem indexByLabel_of_row (hload : load db keyId = .ok tree) (hrow : row ∈ db.nodes)
    (hisRow : IsRow keyId label row) : ∃ i, tree.indexByLabel label = .ok i := by
  obtain ⟨hkey, rfl⟩ := hisRow
  have hsome : (tree.nodes.findIdx? (fun node => node.id = row.label)).isSome := by
    rw [findIdx?_isSome, any_eq_true]
    obtain ⟨i, hi, rfl⟩ := getElem_of_mem (mem_treeNodes.mpr ⟨hrow, hkey⟩)
    have hget := @getElem?_loadNodes (db.treeNodes keyId) db.bridges i
    rw [getElem?_eq_getElem hi, ← (load_ok hload).nodes] at hget
    exact ⟨_, mem_of_getElem? hget, by simp [keyNode]⟩
  obtain ⟨i, hi⟩ := Option.isSome_iff_exists.mp hsome
  exact ⟨i, by unfold KeyQuorumTree.indexByLabel; rw [hi]⟩

end

def Joins (link : LinkRow) (a b : NodeRow) : Prop :=
  link.nodeAId < link.nodeBId ∧ (link = ⟨a.id, b.id⟩ ∨ link = ⟨b.id, a.id⟩)

theorem addBridge_run (h : db.Sound) {tree : KeyQuorumTree} (hload : load db keyId = .ok tree)
    {a b : NodeRow} (ha : a ∈ db.nodes) (hb : b ∈ db.nodes) (haRow : IsRow keyId fromLabel a)
    (hbRow : IsRow keyId toLabel b) (hne : fromLabel ≠ toLabel)
    (hlisted : ⟨a.id, toLabel⟩ ∈ db.bridges ∨ ⟨b.id, fromLabel⟩ ∈ db.bridges) :
    ∃ link, Joins link a b ∧ addBridge keyId fromLabel toLabel db = (.ok (), db.withLink link) := by
  obtain ⟨i, hi⟩ := indexByLabel_of_row hload ha haRow
  obtain ⟨j, hj⟩ := indexByLabel_of_row hload hb hbRow
  obtain ⟨rowA, hmemA, hisA, hrowA, hnodeA⟩ := indexByLabel_row hload hi
  obtain ⟨rowB, hmemB, hisB, hrowB, hnodeB⟩ := indexByLabel_row hload hj
  obtain rfl := h.isRow_unique hmemA ha hisA haRow
  obtain rfl := h.isRow_unique hmemB hb hisB hbRow
  have hij : i ≠ j := by
    rintro rfl
    exact hne (by rw [← haRow.2, ← hbRow.2, Option.mem_unique hrowA hrowB])
  have hids : rowA.id ≠ rowB.id := fun hid =>
    hne (by rw [← haRow.2, ← hbRow.2, h.row_unique ha hb hid])
  obtain ⟨link, hlink⟩ := orderedPair_of_ne hids
  obtain ⟨hlt, hends⟩ := orderedPair_ok hlink
  refine ⟨link, ⟨hlt, hends⟩, ?_⟩
  unfold addBridge
  rw [Op.read_bind, Op.lift_bind hload, Op.lift_bind hi, Op.lift_bind hj,
    Op.require_bind (decide_eq_true hij), hnodeA, hnodeB]
  dsimp only
  unfold linkNodes
  rw [Op.require_bind]
  · refine (Op.lift_bind hlink _ db).trans ?_
    refine insertLinkOrIgnore_run hlt ?_ ?_ <;>
      rcases hends with rfl | rfl <;>
      first | exact mem_map_of_mem ha | exact mem_map_of_mem hb
  · rw [Bool.or_eq_true, contains_iff_mem, contains_iff_mem, mem_allowedBridges, mem_allowedBridges]
    exact hlisted

end Runs

end Store

end KeyQuorum
