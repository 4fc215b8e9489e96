/-
  **WHAT A STORE PUBLISHES** (`export_public_tree` and `list_bridges` in
  `key_tree.rs`).

  The rows of a tree are shown with their parents' labels and their keys,
  whitelist and links by the labels of their ends.
-/
import KeyQuorum.KeyTree.Reflect

namespace KeyQuorum

open List Foundation
open KeyQuorumTree (getElem?_loadNodes keyNode load load_ok)

namespace Store

/-! ## §1. The export. -/

/-- `ORDER BY` the two labels. -/
def edgeLe (a b : PublicEdge) : Bool := a.from_ < b.from_ || (a.from_ = b.from_ && a.to_ ≤ b.to_)

structure BridgeListing where
  allowed : List PublicEdge
  established : List PublicEdge
  deriving DecidableEq, Repr

def rowIn (db : Store) (keyId id : Nat) : Option NodeRow :=
  db.nodes.find? fun row => row.id = id && row.keyId = keyId

def listBridges (db : Store) (keyId : Nat) : BridgeListing where
  allowed := (db.bridges.filterMap fun bridge =>
      (db.rowIn keyId bridge.nodeId).map fun row => ⟨row.label, bridge.peerLabel⟩).insertionSort
    fun a b => edgeLe a b
  established := (db.links.filterMap fun link => do
      let a ← db.rowIn keyId link.nodeAId
      let b ← db.rowIn keyId link.nodeBId
      return ⟨a.label, b.label⟩).insertionSort fun a b => edgeLe a b

/-- One node of `export_public_tree`. -/
def publicNode (db : Store) (tree : KeyQuorumTree) (node : KeyNode) : Except Error PublicNode :=
  let shown : PublicNode :=
    { label := node.id
      parentLabel := node.parentIdx.bind fun i => (tree.nodes[i]?).map KeyNode.id
      threshold := node.threshold.map UInt8.ofNat
      isActive := node.isActive
      encryptionFingerprint := none
      encryptionPublicKey := none }
  match node.hardwareKeyId with
  | some id => do
      let key ← db.getKey id
      .ok { shown with encryptionFingerprint := some key.fingerprint
                       encryptionPublicKey := some (hexEncode key.publicKey) }
  | none => .ok shown

/-- The loop of `export_public_tree`. -/
def publicNodes (db : Store) (tree : KeyQuorumTree) : List KeyNode → Except Error (List PublicNode)
  | [] => .ok []
  | node :: rest => do
      let first ← publicNode db tree node
      let more ← publicNodes db tree rest
      .ok (first :: more)

def exportPublicTree (db : Store) (keyId : Nat) : Except Error PublicTree :=
  match db.keyRow keyId with
  | none => .error .treeNotFound
  | some row => do
      let tree ← load db keyId
      let nodes ← publicNodes db tree tree.nodes
      .ok { label := row.label
            generation :=
              if row.publicGeneration < 2 ^ 32 then UInt32.ofNat row.publicGeneration else 1
            nodes
            whitelist := (db.listBridges keyId).allowed
            links := (db.listBridges keyId).established }

/-! ## §2. Rows as they are shown. -/

section Shown

variable [Crypto] {db : Store} {keyId : Nat}

def keyOf (db : Store) (row : NodeRow) : Option HardwareKey :=
  row.hardwareKeyId.bind fun id => (db.getKey id).toOption

def shown (db : Store) (row : NodeRow) : PublicNode where
  label := row.label
  parentLabel := db.parentLabelOf row
  threshold := row.threshold.map UInt8.ofNat
  isActive := row.isActive
  encryptionFingerprint := (db.keyOf row).map HardwareKey.fingerprint
  encryptionPublicKey := (db.keyOf row).map fun key => hexEncode key.publicKey

variable {tree : KeyQuorumTree} {row : NodeRow} {i : Nat} {label : String}

section

variable (h : db.Sound) (hload : load db keyId = .ok tree) (hrow : (db.treeNodes keyId)[i]? = some row)

include h hload hrow

theorem Sound.parentIdx_label :
    ((KeyQuorumTree.parentIndex (db.treeNodes keyId) i).bind fun j =>
      (tree.nodes[j]?).map KeyNode.id) = db.parentLabelOf row := by
  obtain ⟨hmem, hkey⟩ := mem_treeNodes.mp (mem_of_getElem? hrow)
  unfold KeyQuorumTree.parentIndex
  rw [hrow, Option.bind_some]
  cases hparent : row.parentId with
  | none =>
    unfold parentLabelOf
    rw [hparent]
    rfl
  | some id =>
    obtain ⟨other, hother, rfl, hsame⟩ := h.nodeParents row hmem id hparent
    rw [Option.bind_some, h.parentLabelOf_some hother hparent]
    have hsome : (KeyQuorumTree.rowIndex (db.treeNodes keyId) other.id).isSome := by
      unfold KeyQuorumTree.rowIndex
      rw [findIdx?_isSome, any_eq_true]
      exact ⟨other, mem_treeNodes.mpr ⟨hother, hsame.trans hkey⟩, by simp⟩
    obtain ⟨j, hj⟩ := Option.isSome_iff_exists.mp hsome
    obtain ⟨hlt, hid, -⟩ := findIdx?_eq_some_iff_getElem.mp hj
    have hat : (db.treeNodes keyId)[j]? = some other := by
      rw [getElem?_eq_getElem hlt, h.row_unique (mem_treeNodes.mp (getElem_mem hlt)).1 hother
        (of_decide_eq_true hid)]
    rw [hj, Option.bind_some, (load_ok hload).nodes, getElem?_loadNodes, hat]
    rfl

theorem Sound.publicNode_eq :
    publicNode db tree (keyNode (db.treeNodes keyId) db.bridges row i) = .ok (db.shown row) := by
  obtain ⟨hmem, -⟩ := mem_treeNodes.mp (mem_of_getElem? hrow)
  have hparent := h.parentIdx_label hload hrow
  unfold publicNode shown keyOf
  dsimp only [keyNode]
  rw [hparent]
  cases hkey : row.hardwareKeyId with
  | none => rfl
  | some id =>
    obtain ⟨key, hkeyMem, rfl, -⟩ := h.nodeHardware row hmem id hkey
    simp only [Option.bind_some, h.getKey_of_mem hkeyMem]
    rfl

end

omit [Crypto] in
theorem publicNodes_eq {nodes : List KeyNode}
    (h : List.Forall₂ (fun node shown => publicNode db tree node = .ok shown) nodes shownNodes) :
    publicNodes db tree nodes = .ok shownNodes := by
  induction h with
  | nil => rfl
  | cons hfirst _ ih =>
    rw [publicNodes, hfirst, except_ok_bind, ih, except_ok_bind]

def exported (db : Store) (row : KeyRow) : PublicTree where
  label := row.label
  generation := if row.publicGeneration < 2 ^ 32 then UInt32.ofNat row.publicGeneration else 1
  nodes := (db.treeNodes row.id).map db.shown
  whitelist := (db.listBridges row.id).allowed
  links := (db.listBridges row.id).established

theorem Sound.publicNodes_tree (h : db.Sound) (hload : load db keyId = .ok tree) :
    publicNodes db tree tree.nodes = .ok ((db.treeNodes keyId).map db.shown) := by
  refine publicNodes_eq ?_
  rw [(load_ok hload).nodes, List.forall₂_iff_get]
  refine ⟨by simp, fun i hi hi' => ?_⟩
  have hlt : i < (db.treeNodes keyId).length := by simpa using hi
  have hrow : (db.treeNodes keyId)[i]? = some (db.treeNodes keyId)[i] := getElem?_eq_getElem hlt
  have hnode := @getElem?_loadNodes (db.treeNodes keyId) db.bridges i
  rw [hrow, Option.map_some, getElem?_eq_getElem hi] at hnode
  rw [get_eq_getElem, get_eq_getElem, Option.some.inj hnode, getElem_map]
  exact h.publicNode_eq hload hrow

theorem Sound.export_eq (h : db.Sound) {row : KeyRow} (hrow : row ∈ db.keys)
    (hload : load db row.id = .ok tree) :
    db.exportPublicTree row.id = .ok (db.exported row) := by
  unfold exportPublicTree
  rw [h.keyRow_of_mem hrow]
  dsimp only
  rw [hload, except_ok_bind, h.publicNodes_tree hload, except_ok_bind]
  rfl

/-! ## §3. Whitelist and links by label. -/

def Allows (db : Store) (keyId : Nat) (from_ to_ : String) : Prop :=
  ∃ row ∈ db.nodes, IsRow keyId from_ row ∧ ⟨row.id, to_⟩ ∈ db.bridges

def Pairs (db : Store) (keyId : Nat) (a b : String) : Prop :=
  ∃ rowA ∈ db.nodes, ∃ rowB ∈ db.nodes, IsRow keyId a rowA ∧ IsRow keyId b rowB
    ∧ ⟨rowA.id, rowB.id⟩ ∈ db.links

theorem Sound.rowIn_eq (h : db.Sound) (hrow : row ∈ db.nodes)
    (hkey : row.keyId = keyId) : db.rowIn keyId row.id = some row := by
  refine find?_of_unique hrow (by simp [hkey]) fun other hother hfound => ?_
  rw [Bool.and_eq_true, decide_eq_true_eq] at hfound
  exact h.row_unique hother hrow hfound.1

omit [Crypto] in
theorem rowIn_some {id : Nat} {row : NodeRow} (h : db.rowIn keyId id = some row) :
    row ∈ db.nodes ∧ row.id = id ∧ row.keyId = keyId := by
  have hfound := List.find?_some h
  simp only [Bool.and_eq_true, decide_eq_true_eq] at hfound
  exact ⟨mem_of_find?_eq_some h, hfound.1, hfound.2⟩

section

variable (h : db.Sound)

include h

theorem Sound.rowIn_inj (ha : db.rowIn keyId i = some a) (hb : db.rowIn keyId j = some b)
    (hlabel : a.label = b.label) : i = j := by
  obtain ⟨hmemA, rfl, hkeyA⟩ := rowIn_some ha
  obtain ⟨hmemB, rfl, hkeyB⟩ := rowIn_some hb
  rw [h.nodeLabels a hmemA b hmemB (hkeyA.trans hkeyB.symm) hlabel]

theorem Sound.mem_allowed :
    edge ∈ (db.listBridges keyId).allowed ↔ db.Allows keyId edge.from_ edge.to_ := by
  unfold listBridges
  rw [mem_insertionSort, mem_filterMap]
  constructor
  · rintro ⟨bridge, hbridge, hedge⟩
    obtain ⟨row, hrow, rfl⟩ := Option.map_eq_some_iff.mp hedge
    obtain ⟨hmem, hid, hkey⟩ := rowIn_some hrow
    refine ⟨row, hmem, ⟨hkey, rfl⟩, ?_⟩
    rw [hid]
    exact hbridge
  · rintro ⟨row, hrow, ⟨hkey, hlabel⟩, hbridge⟩
    refine ⟨_, hbridge, ?_⟩
    rw [h.rowIn_eq hrow hkey, Option.map_some, hlabel]

theorem Sound.mem_established :
    edge ∈ (db.listBridges keyId).established ↔ db.Pairs keyId edge.from_ edge.to_ := by
  unfold listBridges
  rw [mem_insertionSort, mem_filterMap]
  constructor
  · rintro ⟨link, hlink, hedge⟩
    obtain ⟨rowA, hrowA, hedge⟩ := Option.bind_eq_some_iff.mp hedge
    obtain ⟨rowB, hrowB, hedge⟩ := Option.bind_eq_some_iff.mp hedge
    cases hedge
    obtain ⟨hmemA, hidA, hkeyA⟩ := rowIn_some hrowA
    obtain ⟨hmemB, hidB, hkeyB⟩ := rowIn_some hrowB
    refine ⟨rowA, hmemA, rowB, hmemB, ⟨hkeyA, rfl⟩, ⟨hkeyB, rfl⟩, ?_⟩
    rw [hidA, hidB]
    exact hlink
  · rintro ⟨rowA, hrowA, rowB, hrowB, ⟨hkeyA, hlabelA⟩, ⟨hkeyB, hlabelB⟩, hlink⟩
    refine ⟨_, hlink, ?_⟩
    show (do
      let a ← db.rowIn keyId rowA.id
      let b ← db.rowIn keyId rowB.id
      return ⟨a.label, b.label⟩ : Option PublicEdge) = some edge
    rw [h.rowIn_eq hrowA hkeyA, h.rowIn_eq hrowB hkeyB]
    show some (⟨rowA.label, rowB.label⟩ : PublicEdge) = some edge
    rw [hlabelA, hlabelB]

theorem Sound.allowed_nodup : (db.listBridges keyId).allowed.Nodup := by
  unfold listBridges
  rw [(perm_insertionSort _ _).nodup_iff]
  refine h.bridgeRows.filterMap ?_
  intro first second edge hfirst hsecond
  obtain ⟨rowA, hrowA, rfl⟩ := Option.map_eq_some_iff.mp hfirst
  obtain ⟨rowB, hrowB, heq⟩ := Option.map_eq_some_iff.mp hsecond
  obtain ⟨hlabel, hpeer⟩ := PublicEdge.mk.inj heq
  rw [BridgeRow.mk.injEq]
  exact ⟨h.rowIn_inj hrowA hrowB hlabel.symm, hpeer.symm⟩

theorem Sound.established_nodup : (db.listBridges keyId).established.Nodup := by
  unfold listBridges
  rw [(perm_insertionSort _ _).nodup_iff]
  refine h.linkRows.filterMap ?_
  intro first second edge hfirst hsecond
  obtain ⟨rowA, hrowA, hfirst⟩ := Option.bind_eq_some_iff.mp hfirst
  obtain ⟨rowB, hrowB, hfirst⟩ := Option.bind_eq_some_iff.mp hfirst
  obtain ⟨rowC, hrowC, hsecond⟩ := Option.bind_eq_some_iff.mp hsecond
  obtain ⟨rowD, hrowD, hsecond⟩ := Option.bind_eq_some_iff.mp hsecond
  obtain ⟨hlabelA, hlabelB⟩ :=
    PublicEdge.mk.inj ((Option.some.inj hfirst).trans (Option.some.inj hsecond).symm)
  rw [LinkRow.mk.injEq]
  exact ⟨h.rowIn_inj hrowA hrowC hlabelA, h.rowIn_inj hrowB hrowD hlabelB⟩

end

/-! ## §4. What the relay asks of the tables. -/

def shape (db : Store) (keyId : Nat) : Nat → Option Nat → String → Option Nat → Prop :=
  fun id parent label threshold => ∃ row ∈ db.nodes, row.keyId = keyId ∧ row.id = id
    ∧ row.parentId = parent ∧ row.label = label ∧ row.threshold = threshold

/-- The rows form a tree: labels are not empty, thresholds are bytes other than zero, and one node
without parent is above all. -/
structure Grown (R : Nat → Option Nat → String → Option Nat → Prop) : Prop where
  labels_ne : ∀ {id parent label threshold}, R id parent label threshold → label ≠ ""
  thresholds : ∀ {id parent label threshold}, R id parent label (some threshold) →
    UInt8.ofNat threshold ≠ 0
  rooted : ∃ root, (∃ label threshold, R root none label threshold)
    ∧ (∀ id label threshold, R id none label threshold → id = root)
    ∧ ∀ id parent label threshold, R id parent label threshold →
      Relation.ReflTransGen (fun a b => ∃ label threshold, R a (some b) label threshold) id root

/-- Whitelist entries name other nodes of the tree, and links are whitelisted. -/
structure Wired (db : Store) (keyId : Nat) : Prop where
  allowed : ∀ a b, db.Allows keyId a b → a ≠ b ∧ ∃ row ∈ db.nodes, IsRow keyId b row
  paired : ∀ a b, db.Pairs keyId a b → db.Allows keyId a b ∨ db.Allows keyId b a

omit [Crypto] in
theorem shape_of_mem (hrow : row ∈ db.nodes) (hkey : row.keyId = keyId) :
    db.shape keyId row.id row.parentId row.label row.threshold :=
  ⟨row, hrow, hkey, rfl, rfl, rfl, rfl⟩

theorem Sound.parent_of_label (h : db.Sound) (hrow : row ∈ db.nodes)
    (hlabel : db.parentLabelOf row = some label) :
    ∃ parent ∈ db.nodes, row.parentId = some parent.id ∧ IsRow row.keyId label parent := by
  cases hparent : row.parentId with
  | none =>
    rw [(h.parentLabelOf_none hrow).mpr hparent] at hlabel
    cases hlabel
  | some id =>
    obtain ⟨parent, hmem, rfl, hkey⟩ := h.nodeParents row hrow id hparent
    rw [h.parentLabelOf_some hmem hparent] at hlabel
    exact ⟨parent, hmem, rfl, hkey, Option.some.inj hlabel⟩

/-- **Rows that show an accepted tree form a tree.** -/
theorem grown_of_valid {t : PublicTree} (h : db.Sound) (hvalid : t.Valid)
    (hrows : ∀ row ∈ db.nodes, row.keyId = keyId → ∃ node ∈ t.nodes, node.label = row.label
      ∧ node.parentLabel = db.parentLabelOf row ∧ node.threshold = row.threshold.map UInt8.ofNat)
    (hnodes : ∀ node ∈ t.nodes, ∃ row ∈ db.nodes, IsRow keyId node.label row) :
    Grown (db.shape keyId) := by
  obtain ⟨root, hrootMem, hrootNone, honly⟩ := hvalid.exists_root
  obtain ⟨rootRow, hrootRow, hrootKey, hrootLabel⟩ := hnodes root hrootMem
  -- the row of a node, found by its label, has the node's parent
  have hnodeOf : ∀ {row node}, row ∈ db.nodes → row.keyId = keyId → node ∈ t.nodes →
      node.label = row.label → node.parentLabel = db.parentLabelOf row := by
    intro row node hrow hkey hnode hlabel
    obtain ⟨other, hother, hsame, hparent, -⟩ := hrows row hrow hkey
    rw [inj_on_of_nodup_map hvalid.nodup hnode hother (hlabel.trans hsame.symm)]
    exact hparent
  have hlineage : ∀ label, Forest.Lineage t.up label root.label → ∀ row ∈ db.nodes,
      IsRow keyId label row → Relation.ReflTransGen
        (fun a b => ∃ label threshold, db.shape keyId a (some b) label threshold) row.id rootRow.id := by
    intro label hline
    induction hline using Relation.ReflTransGen.head_induction_on with
    | refl =>
      intro row hrow hisRow
      rw [h.isRow_unique hrow hrootRow hisRow ⟨hrootKey, hrootLabel⟩]
    | @head label above hstep _ ih =>
      intro row hrow hisRow
      obtain ⟨node, hnode, hnodeLabel, hparent⟩ := PublicTree.up_some hstep
      have hshown := hnodeOf hrow hisRow.1 hnode (hnodeLabel.trans hisRow.2.symm)
      rw [hparent] at hshown
      obtain ⟨parent, hmem, hid, hparentRow⟩ := h.parent_of_label hrow hshown.symm
      rw [hisRow.1] at hparentRow
      refine .head ⟨row.label, row.threshold, ?_⟩ (ih parent hmem hparentRow)
      rw [← hid]
      exact shape_of_mem hrow hisRow.1
  refine ⟨?_, ?_, rootRow.id, ⟨_, _, rootRow, hrootRow, hrootKey, rfl, ?_, rfl, rfl⟩, ?_, ?_⟩
  · rintro id parent label threshold ⟨row, hrow, hkey, -, -, rfl, -⟩
    obtain ⟨node, hnode, hlabel, -⟩ := hrows row hrow hkey
    rw [← hlabel]
    exact hvalid.labels_ne node hnode
  · rintro id parent label threshold ⟨row, hrow, hkey, -, -, -, hthreshold⟩
    obtain ⟨node, hnode, -, -, heq⟩ := hrows row hrow hkey
    rw [hthreshold] at heq
    rcases PublicTree.wellShaped_cases (hvalid.shaped node hnode) with
      ⟨shown, hshown, hpos, -⟩ | ⟨hnone, -⟩
    · rw [hshown] at heq
      obtain rfl : shown = UInt8.ofNat threshold := Option.some.inj heq
      exact UInt8.pos_iff_ne_zero.mp hpos
    · rw [hnone] at heq
      cases heq
  · refine (h.parentLabelOf_none hrootRow).mp ?_
    rw [← hnodeOf hrootRow hrootKey hrootMem hrootLabel.symm, hrootNone]
  · rintro id label threshold ⟨row, hrow, hkey, rfl, hnone, -, -⟩
    obtain ⟨node, hnode, hlabel, hparent, -⟩ := hrows row hrow hkey
    rw [(h.parentLabelOf_none hrow).mpr hnone] at hparent
    obtain rfl := honly node hnode hparent
    rw [h.isRow_unique hrow hrootRow ⟨hkey, hlabel.symm⟩ ⟨hrootKey, hrootLabel⟩]
  · rintro id parent label threshold ⟨row, hrow, hkey, rfl, -, -, -⟩
    obtain ⟨node, hnode, hlabel, -⟩ := hrows row hrow hkey
    refine hlineage row.label ?_ row hrow ⟨hkey, rfl⟩
    rw [← hlabel]
    exact hvalid.rooted node hnode root hrootMem hrootNone

/-! ## §5. What the relay accepts. -/

section

omit [Crypto]

theorem exported_labels (row : KeyRow) :
    (db.exported row).labels = (db.treeNodes row.id).map NodeRow.label := by
  unfold PublicTree.labels exported
  rw [map_map]
  rfl

theorem mem_exported_nodes {row : KeyRow} :
    node ∈ (db.exported row).nodes
      ↔ ∃ other ∈ db.nodes, other.keyId = row.id ∧ db.shown other = node := by
  show node ∈ (db.treeNodes row.id).map db.shown ↔ _
  rw [mem_map]
  constructor
  · rintro ⟨other, hother, hshown⟩
    obtain ⟨hmem, hkey⟩ := mem_treeNodes.mp hother
    exact ⟨other, hmem, hkey, hshown⟩
  · rintro ⟨other, hmem, hkey, hshown⟩
    exact ⟨other, mem_treeNodes.mpr ⟨hmem, hkey⟩, hshown⟩

theorem mem_exported_labels {row : KeyRow} :
    label ∈ (db.exported row).labels ↔ ∃ other ∈ db.nodes, IsRow row.id label other := by
  rw [exported_labels, mem_map]
  constructor
  · rintro ⟨other, hother, rfl⟩
    obtain ⟨hmem, hkey⟩ := mem_treeNodes.mp hother
    exact ⟨other, hmem, hkey, rfl⟩
  · rintro ⟨other, hmem, hkey, hlabel⟩
    exact ⟨other, mem_treeNodes.mpr ⟨hmem, hkey⟩, hlabel⟩

end

variable (h : db.Sound)

include h

theorem Sound.shown_wellShaped (hrow : row ∈ db.nodes)
    (hthreshold : ∀ threshold, row.threshold = some threshold → UInt8.ofNat threshold ≠ 0) :
    PublicTree.WellShaped (db.shown row) := by
  have hcheck := h.nodeChecks row hrow
  unfold PublicTree.WellShaped PublicTree.checkShape shown keyOf
  cases hkey : row.hardwareKeyId with
  | none =>
    cases hsplit : row.threshold with
    | none =>
      unfold NodeRow.check at hcheck
      rw [hkey, hsplit] at hcheck
      cases hcheck
    | some threshold =>
      show (if UInt8.ofNat threshold > 0 then Except.ok () else _) = _
      rw [if_pos (UInt8.pos_iff_ne_zero.mpr (hthreshold threshold hsplit))]
  | some id =>
    obtain ⟨key, hmem, rfl, -⟩ := h.nodeHardware row hrow id hkey
    rw [NodeRow.check_leaf hcheck (by rw [hkey]; rfl)]
    simp only [Option.bind_some, h.getKey_of_mem hmem, Except.toOption, Option.map_some,
      Option.map_none, hexDecode_hexEncode]
    rw [if_neg (not_not.mpr (h.registered key hmem).1)]

theorem Sound.lineage_labels {row : KeyRow} {root : NodeRow} (hnodup : (db.exported row).labels.Nodup)
    (hroot : root ∈ db.nodes) {id : Nat} (hline : Relation.ReflTransGen
      (fun a b => ∃ label threshold, db.shape row.id a (some b) label threshold) id root.id) :
    ∀ other ∈ db.nodes, other.keyId = row.id → other.id = id →
      Forest.Lineage (db.exported row).up other.label root.label := by
  induction hline using Relation.ReflTransGen.head_induction_on with
  | refl =>
    intro other hother _ hid
    rw [h.row_unique hother hroot hid]
    exact .refl _
  | @head id above hstep _ ih =>
    intro other hother hkey hid
    obtain ⟨_, _, same, hsame, -, hsameId, hparent, -, -⟩ := hstep
    rw [h.row_unique hsame hother (hsameId.trans hid.symm)] at hparent
    obtain ⟨parent, hmem, rfl, hparentKey⟩ := h.nodeParents other hother above hparent
    refine .head ?_ (ih parent hmem (hparentKey.trans hkey) rfl)
    show (db.exported row).up (db.shown other).label = some parent.label
    rw [PublicTree.up_of_node hnodup (mem_exported_nodes.mpr ⟨other, hother, hkey, rfl⟩)]
    exact h.parentLabelOf_some hmem hparent

theorem Sound.pairs_ne (hpairs : db.Pairs keyId a b) : a ≠ b := by
  obtain ⟨rowA, hrowA, rowB, hrowB, hisA, hisB, hlink⟩ := hpairs
  rintro rfl
  have hlt := (h.linkNodes _ hlink).1
  rw [h.isRow_unique hrowA hrowB hisA hisB] at hlt
  exact Nat.lt_irrefl _ hlt

theorem exported_valid {row : KeyRow} (hlabel : row.label ≠ "") (hgrown : Grown (db.shape row.id))
    (hwired : db.Wired row.id) : (db.exported row).Valid := by
  obtain ⟨rootId, ⟨rootLabel, rootThreshold, root, hroot, hrootKey, rfl, hrootNone, -, -⟩, hunique,
    hlines⟩ := hgrown.rooted
  have hnodup : (db.exported row).labels.Nodup := by
    rw [exported_labels]
    exact h.labels_nodup row.id
  have hrootOnly : ∀ other ∈ db.nodes, other.keyId = row.id →
      (db.parentLabelOf other = none ↔ other = root) := by
    intro other hother hkey
    rw [h.parentLabelOf_none hother]
    constructor
    · intro hnone
      exact h.row_unique hother hroot (hunique other.id _ _ ⟨other, hother, hkey, rfl, hnone, rfl, rfl⟩)
    · rintro rfl
      exact hrootNone
  refine ⟨hlabel, fun node hnode => ?_, hnodup, fun node hnode => ?_, ⟨db.shown root, ?_⟩,
    fun node hnode parent hparent => ?_, fun edge hedge => ?_, h.allowed_nodup, h.established_nodup,
    fun edge hedge => ?_, fun node hnode other hother hnone => ?_⟩
  · obtain ⟨other, hother, hkey, rfl⟩ := mem_exported_nodes.mp hnode
    exact hgrown.labels_ne (shape_of_mem hother hkey)
  · obtain ⟨other, hother, hkey, rfl⟩ := mem_exported_nodes.mp hnode
    refine h.shown_wellShaped hother fun threshold hthreshold => ?_
    exact hgrown.thresholds (hthreshold ▸ shape_of_mem hother hkey)
  · -- the parentless rows are the root alone
    have hsame : (db.treeNodes row.id).filter (fun other => (db.parentLabelOf other).isNone) = [root] := by
      refine perm_singleton.mp ?_
      have htree : (db.treeNodes row.id).Nodup := List.Nodup.of_map _ (h.labels_nodup row.id)
      rw [perm_ext_iff_of_nodup (htree.filter _) (nodup_singleton _)]
      intro other
      rw [mem_filter, mem_singleton, mem_treeNodes, Option.isNone_iff_eq_none]
      constructor
      · rintro ⟨⟨hother, hkey⟩, hnone⟩
        exact (hrootOnly other hother hkey).mp hnone
      · rintro rfl
        exact ⟨⟨hroot, hrootKey⟩, (hrootOnly other hroot hrootKey).mpr rfl⟩
    show ((db.treeNodes row.id).map db.shown).filter _ = _
    rw [filter_map]
    exact congrArg (List.map db.shown) hsame
  · obtain ⟨other, hother, hkey, rfl⟩ := mem_exported_nodes.mp hnode
    obtain ⟨above, habove, -, haboveRow⟩ := h.parent_of_label hother hparent
    exact mem_exported_labels.mpr ⟨above, habove, hkey ▸ haboveRow⟩
  · rcases mem_append.mp hedge with hedge | hedge
    · have hallows := h.mem_allowed.mp hedge
      obtain ⟨hne, hto⟩ := hwired.allowed _ _ hallows
      obtain ⟨from_, hfrom, hfromRow, -⟩ := hallows
      exact ⟨hne, mem_exported_labels.mpr ⟨from_, hfrom, hfromRow⟩, mem_exported_labels.mpr hto⟩
    · have hpairs := h.mem_established.mp hedge
      have hne := h.pairs_ne hpairs
      obtain ⟨a, ha, b, hb, haRow, hbRow, -⟩ := hpairs
      exact ⟨hne, mem_exported_labels.mpr ⟨a, ha, haRow⟩, mem_exported_labels.mpr ⟨b, hb, hbRow⟩⟩
  · exact (hwired.paired _ _ (h.mem_established.mp hedge)).imp h.mem_allowed.mpr h.mem_allowed.mpr
  · obtain ⟨below, hbelow, hbelowKey, rfl⟩ := mem_exported_nodes.mp hnode
    obtain ⟨top, htop, htopKey, rfl⟩ := mem_exported_nodes.mp hother
    obtain rfl := (hrootOnly top htop htopKey).mp hnone
    exact h.lineage_labels hnodup hroot (hlines _ _ _ _ (shape_of_mem hbelow hbelowKey)) below
      hbelow hbelowKey rfl

/-- **What a store exports is accepted** exactly if the tree has a label, its rows form a tree,
and its whitelist and links are of its own nodes. -/
theorem Sound.export_validates_iff {row : KeyRow} (hrow : row ∈ db.keys) :
    (∃ t, db.exportPublicTree row.id = .ok t ∧ t.validatePublicTree = .ok ())
      ↔ row.label ≠ "" ∧ Grown (db.shape row.id) ∧ db.Wired row.id := by
  constructor
  · rintro ⟨t, hexport, hvalid⟩
    have hload : ∃ tree, load db row.id = .ok tree := by
      unfold exportPublicTree at hexport
      rw [h.keyRow_of_mem hrow] at hexport
      obtain ⟨tree, hload, -⟩ := try_ok hexport
      exact ⟨tree, hload⟩
    obtain ⟨tree, hload⟩ := hload
    rw [h.export_eq hrow hload] at hexport
    cases hexport
    have hvalid := PublicTree.validatePublicTree_ok_iff.mp hvalid
    refine ⟨hvalid.label_ne, ?_, fun a b hallows => ?_, fun a b hpairs => ?_⟩
    · refine grown_of_valid h hvalid (fun other hother hkey => ?_) fun node hnode => ?_
      · exact ⟨_, mem_exported_nodes.mpr ⟨other, hother, hkey, rfl⟩, rfl, rfl, rfl⟩
      · obtain ⟨other, hother, hkey, rfl⟩ := mem_exported_nodes.mp hnode
        exact ⟨other, hother, hkey, rfl⟩
    · have hedge : ⟨a, b⟩ ∈ (db.exported row).whitelist := h.mem_allowed.mpr hallows
      obtain ⟨hne, -, hto⟩ := hvalid.edges _ (mem_append_left _ hedge)
      exact ⟨hne, mem_exported_labels.mp hto⟩
    · have hedge : ⟨a, b⟩ ∈ (db.exported row).links := h.mem_established.mpr hpairs
      exact (hvalid.listed _ hedge).imp h.mem_allowed.mp h.mem_allowed.mp
  · rintro ⟨hlabel, hgrown, hwired⟩
    obtain ⟨rootId, ⟨_, _, root, hroot, hrootKey, -, hrootNone, -, -⟩, -⟩ := hgrown.rooted
    obtain ⟨tree, hload⟩ := h.load_of_root hroot hrootKey hrootNone
    exact ⟨_, h.export_eq hrow hload,
      PublicTree.validatePublicTree_ok_iff.mpr (exported_valid h hlabel hgrown hwired)⟩

end Shown

end Store

end KeyQuorum
