/-
  **A SPLIT TREE IN MEMORY** (`KeyQuorumTree::load` in `key_tree.rs`).

  The rows of one tree, in id order, become an arena: nodes that name their
  parent and their children by position.
-/
import KeyQuorum.Store
import KeyQuorum.Foundation.Forest
import Mathlib.Data.List.Perm.Subperm

namespace KeyQuorum

open List Foundation

/-! ## §1. Loading. -/

structure KeyNode where
  dbId : Nat
  id : String
  parentIdx : Option Nat
  childrenIndices : List Nat
  threshold : Option Nat
  isActive : Bool
  hardwareKeyId : Option Nat
  allowedBridges : List String
  deriving DecidableEq, Repr

/-- `KeyQuorumTree`; the two index maps are searches in `nodes`. -/
structure KeyQuorumTree where
  nodes : List KeyNode
  rootIndex : Nat
  deriving DecidableEq, Repr

namespace KeyQuorumTree

section

variable (rows : List NodeRow)

/-- `db_id_to_index`, over the rows. -/
def rowIndex (id : Nat) : Option Nat := rows.findIdx? (fun row => row.id = id)

def parentIndex (i : Nat) : Option Nat :=
  (rows[i]?.bind NodeRow.parentId).bind (rowIndex rows)

def childIndices (i : Nat) : List Nat :=
  (List.range rows.length).filter fun j => parentIndex rows j = some i

def keyNode (bridges : List BridgeRow) (row : NodeRow) (i : Nat) : KeyNode where
  dbId := row.id
  id := row.label
  parentIdx := parentIndex rows i
  childrenIndices := childIndices rows i
  threshold := row.threshold
  isActive := row.isActive
  hardwareKeyId := row.hardwareKeyId
  allowedBridges := (bridges.filter fun bridge => bridge.nodeId = row.id).map BridgeRow.peerLabel

def loadNodes (bridges : List BridgeRow) : List KeyNode :=
  rows.zipIdx.map fun (row, i) => keyNode rows bridges row i

end

/-- `KeyQuorumTree::load`. -/
def load (db : Store) (keyId : Nat) : Except Error KeyQuorumTree :=
  let rows := db.treeNodes keyId
  if rows.isEmpty then .error .nodeNotFound
  else if ¬ (rows.map NodeRow.label).Nodup then .error .duplicateNodeLabel
  else if rows.any (fun row => row.parentId.any fun parent => (rowIndex rows parent).isNone) then
    .error .nodeNotFound
  else
    let nodes := loadNodes rows db.bridges
    match nodes.findIdx? (fun node => node.parentIdx.isNone) with
    | none => .error .nodeNotFound
    | some rootIndex => .ok ⟨nodes, rootIndex⟩

def indexByLabel (tree : KeyQuorumTree) (label : String) : Except Error Nat :=
  match tree.nodes.findIdx? (fun node => node.id = label) with
  | some i => .ok i
  | none => .error .nodeNotFound

def indexByDbId (tree : KeyQuorumTree) (dbId : Nat) : Except Error Nat :=
  match tree.nodes.findIdx? (fun node => node.dbId = dbId) with
  | some i => .ok i
  | none => .error .nodeNotFound

/-! ## §2. What a load returns. -/

structure Loaded (db : Store) (keyId : Nat) (tree : KeyQuorumTree) : Prop where
  labels : ((db.treeNodes keyId).map NodeRow.label).Nodup
  parents : ∀ row ∈ db.treeNodes keyId, ∀ parent, row.parentId = some parent →
    (rowIndex (db.treeNodes keyId) parent).isSome
  nodes : tree.nodes = loadNodes (db.treeNodes keyId) db.bridges
  root : ∃ node, tree.nodes[tree.rootIndex]? = some node ∧ node.parentIdx = none

theorem load_ok (h : load db keyId = .ok tree) :
    Loaded db keyId tree := by
  unfold load at h
  dsimp only at h
  split at h
  next => cases h
  obtain ⟨hlabels, h⟩ := else_ok h
  obtain ⟨hparents, h⟩ := else_ok h
  split at h
  next => cases h
  next root hroot =>
    cases h
    refine ⟨not_not.mp hlabels, fun row hrow parent hparent => ?_, rfl, ?_⟩
    · by_contra hnone
      refine hparents (any_eq_true.mpr ⟨row, hrow, ?_⟩)
      rw [hparent]
      simpa using hnone
    · obtain ⟨hlt, hnone, -⟩ := findIdx?_eq_some_iff_getElem.mp hroot
      exact ⟨_, getElem?_eq_getElem hlt, by simpa using hnone⟩

section Nodes

@[simp] theorem length_loadNodes : (loadNodes rows bridges).length = rows.length := by
  simp [loadNodes]

theorem getElem?_loadNodes (i : Nat) :
    (loadNodes rows bridges)[i]? = (rows[i]?).map fun row => keyNode rows bridges row i := by
  unfold loadNodes
  rw [getElem?_map, getElem?_zipIdx]
  cases rows[i]? with
  | none => rfl
  | some row => simp

theorem parentIndex_lt (h : parentIndex rows i = some j) : i < rows.length ∧ j < rows.length := by
  obtain ⟨parent, hrow, hindex⟩ := Option.bind_eq_some_iff.mp h
  obtain ⟨row, hget, -⟩ := Option.bind_eq_some_iff.mp hrow
  exact ⟨(List.getElem?_eq_some_iff.mp hget).1, (findIdx?_eq_some_iff_getElem.mp hindex).1⟩

theorem mem_childIndices : j ∈ childIndices rows i ↔ parentIndex rows j = some i := by
  unfold childIndices
  rw [mem_filter, mem_range, decide_eq_true_eq]
  exact ⟨fun h => h.2, fun h => ⟨(parentIndex_lt h).1, h⟩⟩

theorem nodup_childIndices (i : Nat) : (childIndices rows i).Nodup := nodup_range.filter _

end Nodes

/-! ## §3. Arenas. -/

structure Arena (tree : KeyQuorumTree) : Prop where
  child : ∀ {i : Nat} {node : KeyNode}, tree.nodes[i]? = some node → ∀ j,
    j ∈ node.childrenIndices ↔ ∃ other, tree.nodes[j]? = some other ∧ other.parentIdx = some i
  nodup : ∀ {i : Nat} {node : KeyNode}, tree.nodes[i]? = some node → node.childrenIndices.Nodup
  parent : ∀ {i p : Nat} {node : KeyNode}, tree.nodes[i]? = some node → node.parentIdx = some p →
    p < tree.nodes.length
  root : ∃ node, tree.nodes[tree.rootIndex]? = some node ∧ node.parentIdx = none

theorem Loaded.arena (h : Loaded db keyId tree) : Arena tree := by
  have hget : ∀ {i : Nat} {node : KeyNode}, tree.nodes[i]? = some node → ∃ row,
      (db.treeNodes keyId)[i]? = some row ∧ keyNode (db.treeNodes keyId) db.bridges row i = node := by
    intro i node hnode
    rw [h.nodes, getElem?_loadNodes] at hnode
    exact Option.map_eq_some_iff.mp hnode
  refine ⟨?_, ?_, ?_, h.root⟩
  · intro i node hnode j
    obtain ⟨row, -, rfl⟩ := hget hnode
    show j ∈ childIndices _ i ↔ _
    rw [mem_childIndices]
    constructor
    · intro hparent
      have hlt := (parentIndex_lt hparent).1
      refine ⟨keyNode _ db.bridges (db.treeNodes keyId)[j] j, ?_, hparent⟩
      rw [h.nodes, getElem?_loadNodes, getElem?_eq_getElem hlt]
      rfl
    · rintro ⟨other, hother, hparent⟩
      obtain ⟨row', -, rfl⟩ := hget hother
      exact hparent
  · intro i node hnode
    obtain ⟨row, -, rfl⟩ := hget hnode
    exact nodup_childIndices i
  · intro i p node hnode hparent
    obtain ⟨row, -, rfl⟩ := hget hnode
    rw [h.nodes, length_loadNodes]
    exact (parentIndex_lt hparent).2

def up (tree : KeyQuorumTree) (i : Nat) : Option Nat := (tree.nodes[i]?).bind KeyNode.parentIdx

theorem Arena.mem_children (h : Arena tree) (hnode : tree.nodes[i]? = some node) :
    j ∈ node.childrenIndices ↔ tree.up j = some i := by
  rw [h.child hnode]
  unfold up
  rw [Option.bind_eq_some_iff]

theorem Arena.up_root (h : Arena tree) : tree.up tree.rootIndex = none := by
  obtain ⟨node, hnode, hnone⟩ := h.root
  unfold up
  rw [hnode]
  exact hnone

theorem Loaded.parentId_none (h : Loaded db keyId tree) (hrow : (db.treeNodes keyId)[i]? = some row)
    (hup : tree.up i = none) : row.parentId = none := by
  by_contra hparent
  obtain ⟨parent, hparent⟩ := Option.ne_none_iff_exists'.mp hparent
  obtain ⟨p, hp⟩ := Option.isSome_iff_exists.mp (h.parents row (mem_of_getElem? hrow) parent hparent)
  have hsome : tree.up i = some p := by
    unfold up
    rw [h.nodes, getElem?_loadNodes, hrow]
    show parentIndex (db.treeNodes keyId) i = some p
    unfold parentIndex
    rw [hrow]
    show (row.parentId).bind _ = some p
    rw [hparent]
    exact hp
  rw [hup] at hsome
  cases hsome

end KeyQuorumTree

end KeyQuorum
