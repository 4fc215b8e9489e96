/-
  **A STORE AFTER TAKING OVER A SNAPSHOT** (`apply_public_tree` in
  `key_tree.rs`).

  With all nodes written, the rows of other labels can go without taking a
  kept one along; whitelist and links then go in without an error, since the
  relay's check has seen them.
-/
import KeyQuorum.KeyTree.Adopt

namespace KeyQuorum

open List Foundation

namespace Store

section Reflect

variable [Crypto] {db mid db' : Store} {keyId : Nat} {snapshot : PublicTree} {label : String}

/-! ## §1. Deleting the other labels. -/

/-- Deleting the rows of a tree with other labels takes none of the remaining along: these have
their parents among themselves. -/
structure Prunable (db : Store) (keyId : Nat) (remaining : List String) : Prop where
  unique : ∀ a ∈ db.nodes, ∀ b ∈ db.nodes, a.id = b.id → a = b
  sameTree : ∀ row ∈ db.nodes, ∀ parent ∈ db.nodes, row.parentId = some parent.id →
    parent.keyId = row.keyId
  closed : ∀ row ∈ db.nodes, row.keyId = keyId → row.label ∈ remaining → ∀ parent ∈ db.nodes,
    row.parentId = some parent.id → parent.label ∈ remaining

section Delete

omit [Crypto]

variable {remaining : List String}

theorem Prunable.keeping (h : db.Prunable keyId remaining) (kept : Nat → Bool) :
    (db.keeping kept).Prunable keyId remaining where
  unique a ha b hb := h.unique a (mem_filter.mp ha).1 b (mem_filter.mp hb).1
  sameTree row hrow parent hparent :=
    h.sameTree row (mem_filter.mp hrow).1 parent (mem_filter.mp hparent).1
  closed row hrow hkey hlabel parent hparent :=
    h.closed row (mem_filter.mp hrow).1 hkey hlabel parent (mem_filter.mp hparent).1

theorem Prunable.deleteNodes (h : db.Prunable keyId remaining) (hlabel : label ∉ remaining) :
    ∃ kept, Store.deleteNodes (fun row => row.keyId = keyId && row.label = label) db
        = (.ok (), db.keeping kept)
      ∧ (∀ row ∈ db.nodes, (row.keyId = keyId → row.label ∈ remaining) → kept row.id)
      ∧ ∀ row ∈ db.nodes, IsRow keyId label row → kept row.id = false := by
  let gone := cascade db.nodes db.nodes.length
    ((db.nodes.filter fun row => row.keyId = keyId && row.label = label).map NodeRow.id)
  -- only rows of this tree with other labels are taken along
  have hgone : ∀ id ∈ gone, ∃ row ∈ db.nodes, row.id = id ∧ row.keyId = keyId
      ∧ row.label ∉ remaining := by
    refine cascade_subset _ (fun id hid => ?_) fun row hrow parent hparent hbad => ?_
    · obtain ⟨row, hrow, rfl⟩ := mem_map.mp hid
      obtain ⟨hmem, hcond⟩ := mem_filter.mp hrow
      simp only [Bool.and_eq_true, decide_eq_true_eq] at hcond
      exact ⟨row, hmem, rfl, hcond.1, by rwa [hcond.2]⟩
    · obtain ⟨above, habove, rfl, hkey, hnot⟩ := hbad
      have hrowKey : row.keyId = keyId := (h.sameTree row hrow above habove hparent).symm.trans hkey
      exact ⟨row, hrow, rfl, hrowKey, fun hin => hnot (h.closed row hrow hrowKey hin above habove hparent)⟩
  refine ⟨fun id => !gone.contains id, rfl, fun row hrow hstays => ?_, fun row hrow hisRow => ?_⟩
  · rw [Bool.not_eq_true', contains_eq_mem, decide_eq_false_iff_not]
    intro hin
    obtain ⟨other, hother, hid, hkey, hnot⟩ := hgone row.id hin
    obtain rfl := h.unique other hother row hrow hid
    exact hnot (hstays hkey)
  · rw [Bool.not_eq_false', contains_eq_mem, decide_eq_true_eq]
    refine subset_cascade _ (mem_map.mpr ⟨row, mem_filter.mpr ⟨hrow, ?_⟩, rfl⟩)
    simp [hisRow.1, hisRow.2]

theorem keeping_all : db.keeping (fun _ => true) = db := by
  simp [Store.keeping]

/-- **The deletion**: exactly the rows with other labels go. -/
theorem deleteLabels_run {labels : List String} :
    ∀ {db : Store}, db.Prunable keyId remaining →
      ∃ kept, deleteLabels keyId remaining labels db = (.ok (), db.keeping kept)
        ∧ (∀ row ∈ db.nodes, (row.keyId = keyId → row.label ∈ remaining) → kept row.id)
        ∧ ∀ row ∈ db.nodes, row.keyId = keyId → row.label ∈ labels → row.label ∉ remaining →
          kept row.id = false := by
  induction labels with
  | nil =>
    intro db _
    refine ⟨fun _ => true, ?_, fun _ _ _ => rfl, nofun⟩
    rw [keeping_all]
    rfl
  | cons label rest ih =>
    intro db h
    by_cases hin : label ∈ remaining
    · obtain ⟨kept, hrun, hstays, hgoes⟩ := ih h
      refine ⟨kept, ?_, hstays, fun row hrow hkey hlabel hnot => ?_⟩
      · rw [deleteLabels, if_pos (by simpa using hin)]
        exact hrun
      · rcases mem_cons.mp hlabel with heq | hlabel
        · exact absurd (heq ▸ hin) hnot
        · exact hgoes row hrow hkey hlabel hnot
    · obtain ⟨first, hfirst, hstays₁, hgoes₁⟩ := h.deleteNodes hin
      obtain ⟨second, hsecond, hstays₂, hgoes₂⟩ := ih (h.keeping first)
      refine ⟨fun id => first id && second id, ?_, fun row hrow hstays => ?_,
        fun row hrow hkey hlabel hnot => ?_⟩
      · rw [deleteLabels, if_neg (by simpa using hin), Op.bind_of_ok hfirst]
        exact hsecond.trans (by rw [keeping_keeping])
      · have hkept := hstays₁ row hrow hstays
        exact Bool.and_eq_true_iff.mpr ⟨hkept, hstays₂ row (mem_filter.mpr ⟨hrow, hkept⟩) hstays⟩
      · rw [Bool.and_eq_false_iff]
        cases hkept : first row.id with
        | false => exact .inl rfl
        | true =>
          refine .inr (hgoes₂ row (mem_filter.mpr ⟨hrow, hkept⟩) hkey ?_ hnot)
          refine (mem_cons.mp hlabel).resolve_left fun heq => ?_
          rw [hgoes₁ row hrow ⟨hkey, heq⟩] at hkept
          cases hkept

theorem Joins.unique (h : Joins link a b) (hother : Joins other a b) : link = other := by
  obtain ⟨hlt, rfl | rfl⟩ := h <;> obtain ⟨hlt', rfl | rfl⟩ := hother
  · rfl
  · exact absurd hlt (Nat.lt_asymm hlt')
  · exact absurd hlt (Nat.lt_asymm hlt')
  · rfl

theorem noteGeneration_run {generation : Nat} (h : generation < 2 ^ 63) :
    ∃ seen, noteGeneration keyId generation db = (.ok (), { db with generationsSeen := seen }) := by
  unfold noteGeneration
  rw [Op.require_bind (decide_eq_true h)]
  unfold insertGenerationSeen Op.modify
  dsimp only
  split
  · exact ⟨db.generationsSeen, rfl⟩
  · exact ⟨_, rfl⟩

theorem inTree_of_mem {row : NodeRow} (hrow : row ∈ db.nodes) (hkey : row.keyId = keyId) :
    db.inTree keyId row.id :=
  any_eq_true.mpr ⟨row, hrow, by simp [hkey]⟩

theorem treeByLabel_some (h : db.treeByLabel label = some row) : row ∈ db.keys ∧ row.label = label := by
  unfold treeByLabel at h
  exact ⟨(mem_insertionSort _).mp (mem_of_find?_eq_some h), by simpa using List.find?_some h⟩

end Delete

/-! ## §2. Whitelist and links. -/

section

variable (db : Store) (keyId : Nat) (edge : PublicEdge)

def EdgeIn : Prop :=
  edge.from_ ≠ edge.to_ ∧ (∃ row ∈ db.nodes, IsRow keyId edge.from_ row)
    ∧ ∃ row ∈ db.nodes, IsRow keyId edge.to_ row

def IsBridge (bridge : BridgeRow) : Prop :=
  ∃ row ∈ db.nodes, IsRow keyId edge.from_ row ∧ bridge = ⟨row.id, edge.to_⟩

def IsLink (link : LinkRow) : Prop :=
  ∃ a ∈ db.nodes, ∃ b ∈ db.nodes, IsRow keyId edge.from_ a ∧ IsRow keyId edge.to_ b ∧ Joins link a b

end

variable {link : LinkRow} {kept : Nat → Bool} {id : Nat} {row : KeyRow} {a b : NodeRow} {base : Store}
  {edges : List PublicEdge}

theorem allowEdges_run (hin : ∀ edge ∈ edges, base.EdgeIn keyId edge) :
    ∀ {db : Store}, db.Sound → db.nodes = base.nodes →
      ∃ bridges, allowEdges keyId edges db = (.ok (), { db with bridges })
        ∧ ({ db with bridges } : Store).Sound
        ∧ ∀ bridge, bridge ∈ bridges
          ↔ bridge ∈ db.bridges ∨ ∃ edge ∈ edges, base.IsBridge keyId edge bridge := by
  induction edges with
  | nil => exact fun h _ => ⟨_, rfl, h, by simp⟩
  | cons edge rest ih =>
    intro db h hnodes
    obtain ⟨hne, ⟨node, hnode, hnodeRow⟩, peer, hpeer, hpeerRow⟩ := hin edge (.head _)
    rw [← hnodes] at hnode hpeer
    have hrun := allowBridge_run h hnode hpeer hnodeRow hpeerRow hne
    have hframe := @withBridge_eq db ⟨node.id, edge.to_⟩
    obtain ⟨bridges, hrest, hsound, hmem⟩ := ih (fun other hother => hin other (.tail _ hother))
      (@Sound.withBridge db _ h ⟨node.id, edge.to_⟩ (mem_map_of_mem hnode)) (by rw [hframe]; exact hnodes)
    have hend : ({ db.withBridge ⟨node.id, edge.to_⟩ with bridges } : Store) = { db with bridges } := by
      rw [hframe]
    refine ⟨bridges, ?_, hend ▸ hsound, fun bridge => ?_⟩
    · rw [allowEdges, Op.bind_of_ok hrun]
      exact hrest.trans (by rw [hend])
    · have hfirst : bridge = ⟨node.id, edge.to_⟩ ↔ base.IsBridge keyId edge bridge := by
        unfold IsBridge
        rw [← hnodes]
        constructor
        · exact fun heq => ⟨node, hnode, hnodeRow, heq⟩
        · rintro ⟨row, hrow, hrowIs, heq⟩
          rw [heq, h.isRow_unique hrow hnode hrowIs hnodeRow]
      rw [hmem bridge, mem_withBridge, hfirst]
      simp only [mem_cons, exists_eq_or_imp, or_assoc]

theorem addEdges_run {tree : KeyQuorumTree} (hin : ∀ edge ∈ edges, base.EdgeIn keyId edge
      ∧ ((∃ bridge ∈ base.bridges, base.IsBridge keyId edge bridge)
        ∨ ∃ bridge ∈ base.bridges, base.IsBridge keyId edge.flip bridge)) :
    ∀ {db : Store}, db.Sound → KeyQuorumTree.load db keyId = .ok tree → db.nodes = base.nodes →
      db.bridges = base.bridges →
      ∃ links, addEdges keyId edges db = (.ok (), { db with links }) ∧ ({ db with links } : Store).Sound
        ∧ ∀ link, link ∈ links ↔ link ∈ db.links ∨ ∃ edge ∈ edges, base.IsLink keyId edge link := by
  induction edges with
  | nil => exact fun h _ _ _ => ⟨_, rfl, h, by simp⟩
  | cons edge rest ih =>
    intro db h hload hnodes hbridges
    obtain ⟨⟨hne, ⟨a, ha, haRow⟩, b, hb, hbRow⟩, hlisted⟩ := hin edge (.head _)
    unfold IsBridge at hlisted
    rw [← hnodes] at ha hb hlisted
    rw [← hbridges] at hlisted
    have hbridge : ⟨a.id, edge.to_⟩ ∈ db.bridges ∨ ⟨b.id, edge.from_⟩ ∈ db.bridges := by
      rcases hlisted with ⟨bridge, hmem, row, hrow, hrowIs, rfl⟩ | ⟨bridge, hmem, row, hrow, hrowIs, rfl⟩
      · rw [h.isRow_unique hrow ha hrowIs haRow] at hmem
        exact .inl hmem
      · rw [h.isRow_unique hrow hb hrowIs hbRow] at hmem
        exact .inr hmem
    obtain ⟨link, hjoins, hrun⟩ := addBridge_run h hload ha hb haRow hbRow hne hbridge
    have hends : link.nodeAId ∈ db.nodes.map NodeRow.id ∧ link.nodeBId ∈ db.nodes.map NodeRow.id := by
      obtain ⟨-, rfl | rfl⟩ := hjoins
      · exact ⟨mem_map_of_mem ha, mem_map_of_mem hb⟩
      · exact ⟨mem_map_of_mem hb, mem_map_of_mem ha⟩
    have hframe := @withLink_eq db link
    obtain ⟨links, hrest, hsound, hmem⟩ := ih (fun other hother => hin other (.tail _ hother))
      (h.withLink hjoins.1 hends.1 hends.2) (by rw [hframe]; exact hload) (by rw [hframe]; exact hnodes)
      (by rw [hframe]; exact hbridges)
    have hend : ({ db.withLink link with links } : Store) = { db with links } := by
      rw [hframe]
    refine ⟨links, ?_, hend ▸ hsound, fun other => ?_⟩
    · rw [addEdges, Op.bind_of_ok hrun]
      exact hrest.trans (by rw [hend])
    · have hfirst : other = link ↔ base.IsLink keyId edge other := by
        unfold IsLink
        rw [← hnodes]
        constructor
        · rintro rfl
          exact ⟨a, ha, b, hb, haRow, hbRow, hjoins⟩
        · rintro ⟨a', ha', b', hb', haRow', hbRow', hjoins'⟩
          rw [h.isRow_unique ha' ha haRow' haRow, h.isRow_unique hb' hb hbRow' hbRow] at hjoins'
          exact hjoins'.unique hjoins
      rw [hmem other, mem_withLink, hfirst]
      simp only [mem_cons, exists_eq_or_imp, or_assoc]

/-! ## §3. The generation. -/

def withGeneration (keys : List KeyRow) (keyId generation : Nat) : List KeyRow :=
  keys.map fun key => if key.id = keyId then { key with publicGeneration := generation } else key

omit [Crypto] in
theorem moveGeneration_run {row : KeyRow} {generation : Nat} (hrow : db.keyRow keyId = some row)
    (hpos : 0 < generation) (hbound : generation < 2 ^ 63) (hle : row.publicGeneration ≤ generation) :
    ∃ seen, moveGeneration keyId generation db
      = (.ok (), { db with keys := withGeneration db.keys keyId generation
                           generationsSeen := seen }) := by
  obtain ⟨left, hleft⟩ := @noteGeneration_run db keyId row.publicGeneration (by omega)
  have hupdate : updateGeneration keyId generation { db with generationsSeen := left }
      = (.ok (), { db with keys := withGeneration db.keys keyId generation
                           generationsSeen := left }) := by
    unfold updateGeneration
    rw [Op.require_bind (decide_eq_true hpos)]
    rfl
  obtain ⟨seen, hseen⟩ := @noteGeneration_run
    { db with keys := withGeneration db.keys keyId generation, generationsSeen := left }
    keyId generation hbound
  refine ⟨seen, ?_⟩
  unfold moveGeneration
  rw [Op.read_bind, hrow]
  dsimp only
  rw [Op.bind_of_ok hleft, Op.bind_of_ok hupdate]
  exact hseen

/-! ## §4. The tables afterwards. -/

def HasId (db : Store) (id : Nat) : Prop := id ∈ db.nodes.map NodeRow.id

/-- The nodes of a tree are those of a snapshot, in place where they were before; other trees are
as before. -/
structure Replaced (db db' : Store) (keyId : Nat) (snapshot : PublicTree) : Prop where
  sound : db'.Sound
  keysKept : db.hardwareKeys ⊆ db'.hardwareKeys
  otherTrees : ∀ row, row.keyId ≠ keyId → (row ∈ db'.nodes ↔ row ∈ db.nodes)
  labels : ∀ row ∈ db'.nodes, row.keyId = keyId → row.label ∈ snapshot.labels
  origin : ∀ old ∈ db.nodes, ∀ row ∈ db'.nodes, row.id = old.id → IsRow old.keyId old.label row
  ids : ∀ old ∈ db.nodes, (old.keyId = keyId → old.label ∈ snapshot.labels) →
    ∃ row ∈ db'.nodes, row.id = old.id ∧ IsRow old.keyId old.label row
  rows : ∀ node ∈ snapshot.nodes, ∃ row ∈ db'.nodes, row.keyId = keyId ∧ Shows db' node row
    ∧ row.wrappedShare = db.keptShare keyId node

theorem Replaced.row_of_label (h : Replaced db db' keyId snapshot) (hlabel : label ∈ snapshot.labels) :
    ∃ row ∈ db'.nodes, IsRow keyId label row := by
  obtain ⟨node, hnode, rfl⟩ := PublicTree.mem_labels.mp hlabel
  obtain ⟨row, hrow, hkey, hshows, -⟩ := h.rows node hnode
  exact ⟨row, hrow, hkey, hshows.label_eq⟩

/-- **The store after taking over a snapshot**, table by table: beside the nodes, whitelist entries
and links between nodes of the tree are those of the snapshot, and the other ones of surviving
nodes stay. -/
structure Adopted (db db' : Store) (keyId : Nat) (snapshot : PublicTree) : Prop
    extends Replaced db db' keyId snapshot where
  bridges : ∀ bridge, bridge ∈ db'.bridges ↔ (bridge ∈ db.bridges ∧ db'.HasId bridge.nodeId
      ∧ ¬ (db'.inTree keyId bridge.nodeId = true ∧ db'.labelled keyId bridge.peerLabel = true))
    ∨ ∃ edge ∈ snapshot.whitelist, db'.IsBridge keyId edge bridge
  links : ∀ link, link ∈ db'.links ↔ (link ∈ db.links ∧ db'.HasId link.nodeAId ∧ db'.HasId link.nodeBId
      ∧ ¬ (db'.inTree keyId link.nodeAId = true ∧ db'.inTree keyId link.nodeBId = true))
    ∨ ∃ edge ∈ snapshot.links, db'.IsLink keyId edge link
  keys : db'.keys = withGeneration db.keys keyId snapshot.generation.toNat
  unsealed : db.Unsealed keyId snapshot

theorem Applied.prunable (h : Applied db mid keyId snapshot.nodes) (hvalid : snapshot.Valid) :
    mid.Prunable keyId snapshot.labels where
  unique a ha b hb hid := h.sound.row_unique ha hb hid
  sameTree row hrow parent hparent hid := by
    obtain ⟨other, hother, hsame, hkey⟩ := h.sound.nodeParents row hrow parent.id hid
    rw [← h.sound.row_unique hother hparent hsame]
    exact hkey
  closed row hrow hkey hlabel parent hparent hid := by
    obtain ⟨node, hnode, heq⟩ := PublicTree.mem_labels.mp hlabel
    obtain ⟨shown, hshown, hshownKey, hshows, -⟩ := h.rows node hnode
    have hsame : shown = row := h.sound.isRow_unique hshown hrow
      ⟨hshownKey, hshows.label_eq.trans heq⟩ ⟨hkey, rfl⟩
    have hparentLabel := hshows.parent_eq
    rw [hsame, h.sound.parentLabelOf_some hparent hid] at hparentLabel
    exact hvalid.parents node hnode parent.label hparentLabel.symm

theorem Applied.of_perm {written nodes : List PublicNode} (h : Applied db mid keyId written)
    (hperm : written.Perm nodes) : Applied db mid keyId nodes where
  sound := h.sound
  frame := h.frame
  keysKept := h.keysKept
  keysNew key hkey := (h.keysNew key hkey).imp_right fun ⟨htype, node, hnode, hbytes⟩ =>
    ⟨htype, node, hperm.subset hnode, hbytes⟩
  nodesKept := h.nodesKept
  rest row hrow := h.rest row fun ⟨hkey, hlabel⟩ =>
    hrow ⟨hkey, (hperm.map PublicNode.label).subset hlabel⟩
  rows node hnode := h.rows node (hperm.symm.subset hnode)
  unsealed node hnode := h.unsealed node (hperm.symm.subset hnode)

theorem Applied.prune (h : Applied db mid keyId snapshot.nodes) (hvalid : snapshot.Valid) :
    ∃ kept, deleteLabels keyId snapshot.labels
        ((mid.nodes.filter fun row => row.keyId = keyId).map NodeRow.label) mid
        = (.ok (), mid.keeping kept)
      ∧ (mid.keeping kept).Sound
      ∧ ∀ row ∈ mid.nodes, kept row.id ↔ (row.keyId = keyId → row.label ∈ snapshot.labels) := by
  have hprunable := h.prunable hvalid
  obtain ⟨kept, hrun, hstays, hgoes⟩ := @deleteLabels_run keyId snapshot.labels
    ((mid.nodes.filter fun row => row.keyId = keyId).map NodeRow.label) mid hprunable
  have hkept : ∀ row ∈ mid.nodes, kept row.id
      ↔ (row.keyId = keyId → row.label ∈ snapshot.labels) := by
    intro row hrow
    refine ⟨fun hyes hkey => ?_, hstays row hrow⟩
    by_contra hnot
    have hlabel : row.label ∈ (mid.nodes.filter fun row => row.keyId = keyId).map NodeRow.label :=
      mem_map_of_mem (mem_filter.mpr ⟨hrow, decide_eq_true hkey⟩)
    rw [hgoes row hrow hkey hlabel hnot] at hyes
    cases hyes
  refine ⟨kept, hrun, h.sound.keeping fun row hrow hyes parent hparent => ?_, hkept⟩
  obtain ⟨other, hother, rfl, hsame⟩ := h.sound.nodeParents row hrow parent hparent
  refine (hkept other hother).mpr fun hkey => ?_
  have hrowKey := hsame.symm.trans hkey
  exact hprunable.closed row hrow hrowKey ((hkept row hrow).mp hyes hrowKey) other hother hparent

theorem replaceEdges_run (h : db.Sound) (hvalid : snapshot.Valid)
    (hrows : ∀ label ∈ snapshot.labels, ∃ row ∈ db.nodes, IsRow keyId label row)
    (hroot : ∃ root ∈ db.nodes, root.keyId = keyId ∧ root.parentId = none) :
    ∃ bridges links, replaceEdges keyId snapshot db = (.ok (), { db with bridges, links })
      ∧ ({ db with bridges, links } : Store).Sound
      ∧ (∀ bridge, bridge ∈ bridges ↔ (bridge ∈ db.bridges
            ∧ ¬ (db.inTree keyId bridge.nodeId ∧ db.labelled keyId bridge.peerLabel))
          ∨ ∃ edge ∈ snapshot.whitelist, db.IsBridge keyId edge bridge)
      ∧ ∀ link, link ∈ links ↔ (link ∈ db.links
            ∧ ¬ (db.inTree keyId link.nodeAId ∧ db.inTree keyId link.nodeBId))
          ∨ ∃ edge ∈ snapshot.links, db.IsLink keyId edge link := by
  have hedges : ∀ edge ∈ snapshot.whitelist ++ snapshot.links, db.EdgeIn keyId edge := by
    intro edge hedge
    obtain ⟨hne, hfrom, hto⟩ := hvalid.edges edge hedge
    exact ⟨hne, hrows _ hfrom, hrows _ hto⟩
  let cleared : Store :=
    { db with bridges := db.bridges.filter fun bridge =>
                !(db.inTree keyId bridge.nodeId && db.labelled keyId bridge.peerLabel)
              links := db.links.filter fun link =>
                !(db.inTree keyId link.nodeAId && db.inTree keyId link.nodeBId) }
  have hcleared : cleared.Sound := (h.filterBridges _).filterLinks _
  obtain ⟨bridges, hallow, hsound, hbridges⟩ := allowEdges_run (fun edge hedge =>
    hedges edge (mem_append_left _ hedge)) hcleared rfl
  obtain ⟨root, hrootMem, hrootKey, hrootNone⟩ := hroot
  obtain ⟨tree, hload⟩ := hsound.load_of_root hrootMem hrootKey hrootNone
  obtain ⟨links, hadd, hsound', hlinks⟩ := @addEdges_run _ _ { db with bridges } _ _ (fun edge hedge => by
    refine ⟨hedges edge (mem_append_right _ hedge), ?_⟩
    -- the whitelist entry that allows the link is in
    have hlisted : ∀ {allowed : PublicEdge}, allowed ∈ snapshot.whitelist →
        ∃ bridge ∈ bridges, db.IsBridge keyId allowed bridge := by
      intro allowed hallowed
      obtain ⟨-, ⟨row, hrow, hisRow⟩, -⟩ := hedges allowed (mem_append_left _ hallowed)
      have hbridge : db.IsBridge keyId allowed ⟨row.id, allowed.to_⟩ := ⟨row, hrow, hisRow, rfl⟩
      exact ⟨_, (hbridges _).mpr (.inr ⟨allowed, hallowed, hbridge⟩), hbridge⟩
    exact (hvalid.listed edge hedge).imp hlisted hlisted) _ hsound hload rfl rfl
  have hfilter {α : Type} {l : List α} {p q : α → Bool} {a : α} :
      a ∈ l.filter (fun a => !(p a && q a)) ↔ a ∈ l ∧ ¬ (p a ∧ q a) := by
    rw [mem_filter, Bool.not_eq_true', ← Bool.not_eq_true, Bool.and_eq_true]
  refine ⟨bridges, links, ?_, hsound', fun bridge => ?_, fun link => ?_⟩
  · show (allowEdges keyId snapshot.whitelist >>= fun _ => addEdges keyId snapshot.links) cleared = _
    rw [Op.bind_of_ok hallow]
    exact hadd
  · exact (hbridges bridge).trans (or_congr hfilter .rfl)
  · exact (hlinks link).trans (or_congr hfilter .rfl)

section

omit [Crypto]

theorem mem_keeping_nodes {row : NodeRow} :
    row ∈ (db.keeping kept).nodes ↔ row ∈ db.nodes ∧ kept row.id := mem_filter

theorem mem_keeping_bridges :
    bridge ∈ (db.keeping kept).bridges ↔ bridge ∈ db.bridges ∧ kept bridge.nodeId :=
  mem_filter

theorem mem_keeping_links :
    link ∈ (db.keeping kept).links
      ↔ link ∈ db.links ∧ kept link.nodeAId ∧ kept link.nodeBId := by
  rw [← Bool.and_eq_true]
  exact mem_filter

theorem hasId_keeping (h : db.HasId id) :
    (db.keeping kept).HasId id ↔ kept id := by
  constructor
  · intro hin
    obtain ⟨row, hrow, rfl⟩ := mem_map.mp hin
    exact (mem_keeping_nodes.mp hrow).2
  · intro hkept
    obtain ⟨row, hrow, rfl⟩ := mem_map.mp h
    exact mem_map_of_mem (mem_keeping_nodes.mpr ⟨hrow, hkept⟩)

theorem keyRow_withGeneration (hrow : db.keyRow keyId = some row)
    (hkeys : db'.keys = withGeneration db.keys keyId generation) :
    db'.keyRow keyId = some { row with publicGeneration := generation } := by
  unfold keyRow at hrow ⊢
  rw [hkeys, withGeneration, find?_map_ite, if_pos rfl, hrow]
  · rfl
  · exact fun _ h => h

end

/-- The store once the other labels are gone. -/
structure Pruned (db pruned : Store) (keyId : Nat) (snapshot : PublicTree) : Prop
    extends Replaced db pruned keyId snapshot where
  keys : pruned.keys = db.keys
  bridges : ∀ bridge, bridge ∈ pruned.bridges ↔ bridge ∈ db.bridges ∧ pruned.HasId bridge.nodeId
  links : ∀ link, link ∈ pruned.links ↔ link ∈ db.links ∧ pruned.HasId link.nodeAId
    ∧ pruned.HasId link.nodeBId

theorem Applied.pruned (h : Applied db mid keyId snapshot.nodes) (hvalid : snapshot.Valid) :
    ∃ pruned, deleteLabels keyId snapshot.labels
        ((mid.nodes.filter fun row => row.keyId = keyId).map NodeRow.label) mid = (.ok (), pruned)
      ∧ Pruned db pruned keyId snapshot := by
  obtain ⟨kept, hrun, hsound, hkept⟩ := h.prune hvalid
  have hmem : ∀ {row : NodeRow}, row ∈ (mid.keeping kept).nodes
      ↔ row ∈ mid.nodes ∧ (row.keyId = keyId → row.label ∈ snapshot.labels) := by
    intro row
    rw [mem_keeping_nodes]
    exact and_congr_right fun hrow => hkept row hrow
  have hbridgeRows : mid.bridges = db.bridges := by rw [h.frame]
  have hlinkRows : mid.links = db.links := by rw [h.frame]
  refine ⟨mid.keeping kept, hrun, ⟨hsound, h.keysKept, fun row hrow => ?_,
    fun row hrow => (hmem.mp hrow).2, fun old hold row hrow hid => ?_, fun old hold hstays => ?_,
    fun node hnode => ?_⟩, by rw [keeping, h.frame], fun bridge => ?_, fun link => ?_⟩
  · rw [hmem, and_iff_left fun hkey => absurd hkey hrow]
    exact h.rest row fun hcond => hrow hcond.1
  · obtain ⟨kept', hkept', hid', hkey', hlabel'⟩ := h.nodesKept old hold
    rw [h.sound.row_unique (hmem.mp hrow).1 hkept' (hid.trans hid'.symm)]
    exact ⟨hkey', hlabel'⟩
  · obtain ⟨row, hrow, hid, hkey, hlabel⟩ := h.nodesKept old hold
    exact ⟨row, hmem.mpr ⟨hrow, by rwa [hkey, hlabel]⟩, hid, hkey, hlabel⟩
  · obtain ⟨row, hrow, hkey, hshows, hshare⟩ := h.rows node hnode
    have hlabel : row.label ∈ snapshot.labels := by
      rw [hshows.label_eq]
      exact mem_map_of_mem hnode
    refine ⟨row, hmem.mpr ⟨hrow, fun _ => hlabel⟩, hkey, ?_, hshare⟩
    refine hshows.mono h.sound hsound hrow (fun parent hparent hid => ?_) (List.Subset.refl _)
    refine ⟨parent, hmem.mpr ⟨hparent, fun _ => ?_⟩, rfl, rfl⟩
    exact (h.prunable hvalid).closed row hrow hkey hlabel parent hparent hid
  · rw [mem_keeping_bridges, hbridgeRows]
    refine and_congr_right fun hbridge => ?_
    exact (hasId_keeping (h.sound.bridgeNodes bridge (hbridgeRows ▸ hbridge))).symm
  · rw [mem_keeping_links, hlinkRows]
    refine and_congr_right fun hlink => ?_
    obtain ⟨-, ha, hb⟩ := h.sound.linkNodes link (hlinkRows ▸ hlink)
    exact and_congr (hasId_keeping ha).symm (hasId_keeping hb).symm

/-- **What `mergeTree` leaves, and that nothing after the loop fails.** -/
theorem mergeTree_of_loop (hdb : db.Sound) (hvalid : snapshot.Valid) (hrow : db.keyRow keyId = some row)
    (hle : row.publicGeneration ≤ snapshot.generation.toNat)
    (hloop : applyPending keyId snapshot.labels snapshot.nodes.length snapshot.nodes [] db
      = (.ok (), mid)) :
    ∃ db', mergeTree keyId snapshot db = (.ok (), db') ∧ Adopted db db' keyId snapshot := by
  obtain ⟨written, happlied, hperm⟩ := applyPending_ok hdb (.init hdb)
    (fun node hnode => hvalid.shaped node hnode) hvalid.nodup hloop
  have h := happlied.of_perm hperm
  obtain ⟨pruned, hprune, hpruned⟩ := h.pruned hvalid
  obtain ⟨root, hrootMem, hrootNone, -⟩ := hvalid.exists_root
  obtain ⟨bridges, links, hedges, hsound, hbridges, hlinks⟩ := replaceEdges_run hpruned.sound hvalid
    (fun _ => hpruned.row_of_label) (by
      obtain ⟨shown, hmem, hkey, hshows, -⟩ := hpruned.rows root hrootMem
      exact ⟨shown, hmem, hkey, hshows.parentId_none hpruned.sound hmem hrootNone⟩)
  have hpos := Nat.lt_of_lt_of_le (hdb.generations row (mem_of_find?_eq_some hrow)) hle
  have hbound := snapshot.generation.toNat_lt
  obtain ⟨seen, hmove⟩ := @moveGeneration_run { pruned with bridges, links } keyId row
    snapshot.generation.toNat (by unfold keyRow; rw [hpruned.keys]; exact hrow) hpos (by omega) hle
  refine ⟨{ pruned with
      bridges, links, generationsSeen := seen
      keys := withGeneration pruned.keys keyId snapshot.generation.toNat }, ?_,
    { hpruned with sound := { hsound.updateGeneration keyId hpos with }, rows := fun node hnode => ?_ },
    fun bridge => ?_, fun link => ?_, congrArg (withGeneration · keyId _) hpruned.keys, h.unsealed⟩
  · unfold mergeTree
    rw [Op.bind_of_ok hloop, Op.read_bind, Op.bind_of_ok hprune, Op.bind_of_ok hedges]
    exact hmove
  · obtain ⟨shown, hmem, hkey, hshows, hshare⟩ := hpruned.rows node hnode
    exact ⟨shown, hmem, hkey, { hshows with }, hshare⟩
  · refine (hbridges bridge).trans (or_congr ?_ .rfl)
    rw [hpruned.bridges bridge, and_assoc]
    exact .rfl
  · refine (hlinks link).trans (or_congr ?_ .rfl)
    rw [hpruned.links link, and_assoc, and_assoc]
    exact .rfl

section

variable (h : db.Sound) (hvalid : snapshot.Valid) (hrow : db.keyRow keyId = some row)
  (hle : row.publicGeneration ≤ snapshot.generation.toNat)

include h hvalid hrow hle

theorem mergeTree_ok {u : Unit} (hok : mergeTree keyId snapshot db = (.ok u, db')) :
    Adopted db db' keyId snapshot := by
  obtain ⟨_, mid, hloop, -⟩ := Op.bind_ok hok
  obtain ⟨_, hrun, hadopted⟩ := mergeTree_of_loop h hvalid hrow hle hloop
  rw [hrun] at hok
  obtain rfl := (Prod.mk.inj hok).2
  exact hadopted

theorem mergeTree_run (hkeys : UsableKeys db snapshot) (hunsealed : db.Unsealed keyId snapshot) :
    ∃ db', mergeTree keyId snapshot db = (.ok (), db') := by
  have hkeyId : keyId ∈ db.keys.map KeyRow.id := by
    refine mem_map.mpr ⟨row, mem_of_find?_eq_some hrow, ?_⟩
    simpa using List.find?_some hrow
  obtain ⟨mid, hloop⟩ := applyPending_run h hvalid hkeyId hkeys hunsealed (.init h)
    (.refl _) (Nat.le_refl _)
  obtain ⟨db', hrun, -⟩ := mergeTree_of_loop h hvalid hrow hle hloop
  exact ⟨db', hrun⟩

end

/-! ## §5. The tree afterwards. -/

def Linked (db : Store) (keyId : Nat) (a b : String) : Prop :=
  ∃ rowA ∈ db.treeNodes keyId, ∃ rowB ∈ db.treeNodes keyId, rowA.label = a ∧ rowB.label = b
    ∧ (⟨rowA.id, rowB.id⟩ ∈ db.links ∨ ⟨rowB.id, rowA.id⟩ ∈ db.links)

/-- **The tree of a store is that of the snapshot**: its labels, for each the parent, threshold,
key and active flag, its links up to orientation and its generation; a sealed share is what the
store before had under that label, if the key was the same. -/
structure Reflects (db db' : Store) (keyId : Nat) (snapshot : PublicTree) : Prop where
  labels : ((db'.treeNodes keyId).map NodeRow.label).Perm snapshot.labels
  nodes : ∀ node ∈ snapshot.nodes, ∃ row ∈ db'.treeNodes keyId, Shows db' node row
    ∧ row.wrappedShare = db.keptShare keyId node
  links : ∀ a b, db'.Linked keyId a b ↔ ⟨a, b⟩ ∈ snapshot.links ∨ ⟨b, a⟩ ∈ snapshot.links
  generation : ∃ row, db'.keyRow keyId = some row ∧ row.label = snapshot.label
    ∧ row.publicGeneration = snapshot.generation.toNat

theorem Sound.joins_cases (h : db.Sound) (ha : a ∈ db.nodes) (hb : b ∈ db.nodes) (hx : x ∈ db.nodes)
    (hy : y ∈ db.nodes) (hlink : link = ⟨a.id, b.id⟩ ∨ link = ⟨b.id, a.id⟩) (hjoins : Joins link x y) :
    (a = x ∧ b = y) ∨ (a = y ∧ b = x) := by
  have hids : (a.id = x.id ∧ b.id = y.id) ∨ (a.id = y.id ∧ b.id = x.id) := by
    obtain ⟨-, rfl | rfl⟩ := hjoins <;> rcases hlink with heq | heq <;>
      obtain ⟨h₁, h₂⟩ := LinkRow.mk.inj heq
    · exact .inl ⟨h₁.symm, h₂.symm⟩
    · exact .inr ⟨h₂.symm, h₁.symm⟩
    · exact .inr ⟨h₁.symm, h₂.symm⟩
    · exact .inl ⟨h₂.symm, h₁.symm⟩
  rcases hids with ⟨h₁, h₂⟩ | ⟨h₁, h₂⟩
  · exact .inl ⟨h.row_unique ha hx h₁, h.row_unique hb hy h₂⟩
  · exact .inr ⟨h.row_unique ha hy h₁, h.row_unique hb hx h₂⟩

omit [Crypto] in
theorem Linked.symm {a b : String} (h : db.Linked keyId a b) : db.Linked keyId b a := by
  obtain ⟨rowA, hrowA, rowB, hrowB, hlabelA, hlabelB, hlink⟩ := h
  exact ⟨rowB, hrowB, rowA, hrowA, hlabelB, hlabelA, hlink.symm⟩

theorem Adopted.linked_iff (h : Adopted db db' keyId snapshot) (hvalid : snapshot.Valid) {a b : String} :
    db'.Linked keyId a b ↔ ⟨a, b⟩ ∈ snapshot.links ∨ ⟨b, a⟩ ∈ snapshot.links := by
  have hlinked : ∀ {from_ to_ : String}, ⟨from_, to_⟩ ∈ snapshot.links →
      db'.Linked keyId from_ to_ := by
    intro from_ to_ hedge
    obtain ⟨hne, hfrom, hto⟩ := hvalid.edges _ (mem_append_right _ hedge)
    obtain ⟨x, hx, hxRow⟩ := h.row_of_label hfrom
    obtain ⟨y, hy, hyRow⟩ := h.row_of_label hto
    have hids : x.id ≠ y.id := by
      intro hid
      refine hne ?_
      rw [← hxRow.2, ← hyRow.2, h.sound.row_unique hx hy hid]
    obtain ⟨link, hlink⟩ := orderedPair_of_ne hids
    have hjoins : Joins link x y := orderedPair_ok hlink
    have hmem : link ∈ db'.links :=
      (h.links link).mpr (.inr ⟨_, hedge, x, hx, y, hy, hxRow, hyRow, hjoins⟩)
    refine ⟨x, mem_treeNodes.mpr ⟨hx, hxRow.1⟩, y, mem_treeNodes.mpr ⟨hy, hyRow.1⟩, hxRow.2, hyRow.2, ?_⟩
    rcases hjoins.2 with rfl | rfl
    · exact .inl hmem
    · exact .inr hmem
  constructor
  · rintro ⟨rowA, hrowA, rowB, hrowB, rfl, rfl, hlink⟩
    obtain ⟨hmemA, hkeyA⟩ := mem_treeNodes.mp hrowA
    obtain ⟨hmemB, hkeyB⟩ := mem_treeNodes.mp hrowB
    obtain ⟨link, hmem, hends⟩ : ∃ link ∈ db'.links,
        link = ⟨rowA.id, rowB.id⟩ ∨ link = ⟨rowB.id, rowA.id⟩ := by
      rcases hlink with hlink | hlink
      · exact ⟨_, hlink, .inl rfl⟩
      · exact ⟨_, hlink, .inr rfl⟩
    rcases (h.links link).mp hmem with ⟨-, -, -, hnot⟩ | ⟨edge, hedge, x, hx, y, hy, hxRow, hyRow, hjoins⟩
    · have hA := inTree_of_mem hmemA hkeyA
      have hB := inTree_of_mem hmemB hkeyB
      rcases hends with rfl | rfl
      · exact absurd ⟨hA, hB⟩ hnot
      · exact absurd ⟨hB, hA⟩ hnot
    · have hedgeEq : edge = ⟨x.label, y.label⟩ := by rw [hxRow.2, hyRow.2]
      rcases h.sound.joins_cases hmemA hmemB hx hy hends hjoins with ⟨rfl, rfl⟩ | ⟨rfl, rfl⟩
      · exact .inl (hedgeEq ▸ hedge)
      · exact .inr (hedgeEq ▸ hedge)
  · rintro (hedge | hedge)
    · exact hlinked hedge
    · exact (hlinked hedge).symm

theorem Adopted.reflects (h : Adopted db db' keyId snapshot) (hvalid : snapshot.Valid)
    (hrow : db.keyRow keyId = some row) (hlabel : row.label = snapshot.label) :
    Reflects db db' keyId snapshot := by
  refine ⟨?_, fun node hnode => ?_, fun a b => h.linked_iff hvalid, ?_⟩
  · rw [perm_ext_iff_of_nodup (h.sound.labels_nodup keyId) hvalid.nodup]
    intro label
    constructor
    · intro hin
      obtain ⟨other, hother, rfl⟩ := mem_map.mp hin
      obtain ⟨hmem, hkey⟩ := mem_treeNodes.mp hother
      exact h.labels other hmem hkey
    · intro hin
      obtain ⟨other, hmem, hkey, rfl⟩ := h.row_of_label hin
      exact mem_map_of_mem (mem_treeNodes.mpr ⟨hmem, hkey⟩)
  · obtain ⟨other, hmem, hkey, hshows, hshare⟩ := h.rows node hnode
    exact ⟨other, mem_treeNodes.mpr ⟨hmem, hkey⟩, hshows, hshare⟩
  · exact ⟨_, keyRow_withGeneration hrow h.keys, hlabel, rfl⟩

/-! ## §6. `apply_public_tree`. -/

section

variable (db : Store) (keyId : Option Nat) (snapshot : PublicTree)

def target : Option Nat :=
  match keyId with
  | some id => some id
  | none => (db.treeByLabel snapshot.label).map KeyRow.id

/-- The tree that is named is that of the snapshot, and the snapshot is no older than it. -/
def Addressed : Prop :=
  match keyId with
  | some id => ∃ row, db.keyRow id = some row ∧ row.label = snapshot.label
      ∧ row.publicGeneration ≤ snapshot.generation.toNat
  | none => ∀ row, db.treeByLabel snapshot.label = some row →
      row.publicGeneration ≤ snapshot.generation.toNat

/-- No sealed share of the tree is under a label that the snapshot makes a split, and the
generation is not zero. -/
def Takes : Prop :=
  0 < snapshot.generation ∧ ∀ id, db.target keyId snapshot = some id → db.Unsealed id snapshot

end

theorem Sound.keyRow_of_mem (h : db.Sound) (hrow : row ∈ db.keys) :
    db.keyRow row.id = some row := by
  refine find?_of_unique hrow (by simp) fun key hkey hid => ?_
  exact inj_on_of_nodup_map h.keyIds hkey hrow (by simpa using hid)

/-- The tree a snapshot goes to: a stored one, or a new one without nodes. -/
structure Targeted (db db' : Store) (keyId : Option Nat) (snapshot : PublicTree) (id : Nat)
    (row : KeyRow) : Prop where
  sound : db'.Sound
  frame : db' = { db with keys := db'.keys }
  given : ∀ other, keyId = some other → id = other
  row_eq : db'.keyRow id = some row
  label_eq : row.label = snapshot.label
  known : (db.target keyId snapshot = some id ∧ row.publicGeneration ≤ snapshot.generation.toNat)
    ∨ (db.target keyId snapshot = none ∧ row.publicGeneration = 1 ∧ ∀ node ∈ db.nodes, node.keyId ≠ id)

theorem targetKey_run (h : db.Sound) {keyId : Option Nat} (haddressed : db.Addressed keyId snapshot) :
    ∃ id mid row, targetKey keyId snapshot db = (.ok id, mid)
      ∧ Targeted db mid keyId snapshot id row ∧ ∀ key ∈ mid.keys, key.id ≠ id → key ∈ db.keys := by
  unfold targetKey
  rw [Op.read_bind]
  cases keyId with
  | some id =>
    obtain ⟨row, hrow, hlabel, hle⟩ := haddressed
    dsimp only
    rw [hrow]
    dsimp only
    rw [if_neg (not_not.mpr hlabel)]
    exact ⟨id, db, row, rfl, ⟨h, rfl, fun other hother => Option.some.inj hother, hrow, hlabel,
      .inl ⟨rfl, hle⟩⟩, fun _ hkey _ => hkey⟩
  | none =>
    cases htree : db.treeByLabel snapshot.label with
    | some row =>
      obtain ⟨hmem, hlabel⟩ := treeByLabel_some htree
      refine ⟨row.id, db, row, rfl, ⟨h, rfl, fun _ hother => (by cases hother),
        h.keyRow_of_mem hmem, hlabel, .inl ⟨?_, haddressed row htree⟩⟩, fun _ hkey _ => hkey⟩
      unfold target
      rw [htree]
      rfl
    | none =>
      have hsound := h.insertKey snapshot.label
      refine ⟨_, _, { id := freshId (db.keys.map KeyRow.id), label := snapshot.label }, rfl,
        ⟨hsound, rfl, fun _ hother => (by cases hother), ?_, rfl, .inr ⟨?_, rfl, ?_⟩⟩,
        fun key hkey hne => (mem_snoc.mp hkey).resolve_right fun heq => hne (heq ▸ rfl)⟩
      · exact hsound.keyRow_of_mem mem_concat_self
      · unfold target
        rw [htree]
        rfl
      · exact fun node hnode => ne_freshId (h.nodeKeys node hnode)

theorem Targeted.takes_iff {keyId : Option Nat} (h : Targeted db mid keyId snapshot id row) :
    db.Takes keyId snapshot
      ↔ row.publicGeneration ≤ snapshot.generation.toNat ∧ mid.Unsealed id snapshot := by
  have hnodes : mid.nodes = db.nodes := by rw [h.frame]
  have hunsealed : mid.Unsealed id snapshot ↔ db.Unsealed id snapshot := by
    unfold Unsealed
    rw [hnodes]
  have hpos : 0 < row.publicGeneration :=
    h.sound.generations row (mem_of_find?_eq_some h.row_eq)
  unfold Takes
  rw [hunsealed, UInt32.lt_iff_toNat_lt]
  rcases h.known with ⟨htarget, hle⟩ | ⟨htarget, hone, hnone⟩
  · rw [htarget]
    constructor
    · exact fun ⟨_, hall⟩ => ⟨hle, hall id rfl⟩
    · rintro ⟨-, hall⟩
      refine ⟨Nat.lt_of_lt_of_le hpos hle, fun other hother => ?_⟩
      rw [← Option.some.inj hother]
      exact hall
  · rw [htarget, hone]
    constructor
    · exact fun ⟨hgen, _⟩ => ⟨hgen, fun node _ _ old hold hisRow => absurd hisRow.1 (hnone old hold)⟩
    · exact fun ⟨hgen, _⟩ => ⟨hgen, fun other hother => by cases hother⟩

theorem applyPublicTree_ok_iff {keyId : Option Nat} {id result : Nat} {row : KeyRow}
    (hvalid : snapshot.Valid) (htarget : targetKey keyId snapshot db = (.ok id, mid))
    (hrow : mid.keyRow id = some row) :
    applyPublicTree keyId snapshot db = (.ok result, db')
      ↔ result = id ∧ row.publicGeneration ≤ snapshot.generation.toNat
        ∧ mergeTree id snapshot mid = (.ok (), db') := by
  have hstored : mid.storedGeneration id = .ok row.publicGeneration := by
    unfold storedGeneration
    rw [hrow]
  constructor
  · intro h
    obtain ⟨-, h⟩ := Op.require_bind_ok h
    have h := Db.transaction_ok h
    unfold applyPublicTreeInner at h
    rw [Op.bind_of_ok htarget, Op.read_bind, Op.lift_bind hstored] at h
    obtain ⟨hle, h⟩ := Op.require_bind_ok h
    obtain ⟨-, h⟩ := Op.require_bind_ok h
    obtain ⟨_, _, hmerge, h⟩ := Op.bind_ok h
    obtain ⟨rfl, rfl⟩ := Op.pure_ok h
    exact ⟨rfl, of_decide_eq_true hle, hmerge⟩
  · rintro ⟨rfl, hle, hmerge⟩
    have hnonempty : (!snapshot.nodes.isEmpty) := by
      obtain ⟨root, hroot⟩ := hvalid.oneRoot
      cases hnodes : snapshot.nodes with
      | nil =>
        rw [hnodes] at hroot
        cases hroot
      | cons => rfl
    unfold applyPublicTree
    rw [Op.require_bind hnonempty]
    refine Db.transaction_of_ok ?_
    unfold applyPublicTreeInner
    rw [Op.bind_of_ok htarget, Op.read_bind, Op.lift_bind hstored, Op.require_bind (decide_eq_true hle),
      Op.require_bind (decide_eq_true hvalid.nodup), Op.bind_of_ok hmerge]
    rfl

theorem addressed_of_ok (h : db.Sound) {keyId : Option Nat}
    (hok : applyPublicTree keyId snapshot db = (.ok result, db')) : db.Addressed keyId snapshot := by
  obtain ⟨-, hok⟩ := Op.require_bind_ok hok
  obtain ⟨id, mid, htarget, hok⟩ := Op.bind_ok (Db.transaction_ok hok)
  obtain ⟨stored, hstored, hok⟩ := Op.lift_bind_ok (Op.read_bind_ok hok)
  obtain ⟨hle, -⟩ := Op.require_bind_ok hok
  have hbound : ∀ row, mid.keyRow id = some row →
      row.publicGeneration ≤ snapshot.generation.toNat := by
    intro row hrow
    unfold storedGeneration at hstored
    rw [hrow] at hstored
    cases hstored
    exact of_decide_eq_true hle
  have htarget := Op.read_bind_ok htarget
  cases keyId with
  | some named =>
    cases hrow : db.keyRow named with
    | none =>
      simp only [hrow] at htarget
      cases htarget
    | some row =>
      simp only [hrow] at htarget
      by_cases hlabel : row.label = snapshot.label
      · rw [if_neg (not_not.mpr hlabel)] at htarget
        obtain ⟨rfl, rfl⟩ := Op.pure_ok htarget
        exact ⟨row, hrow, hlabel, hbound row hrow⟩
      · rw [if_pos hlabel] at htarget
        cases htarget
  | none =>
    intro row htree
    simp only [htree] at htarget
    obtain ⟨rfl, rfl⟩ := Op.pure_ok htarget
    exact hbound row (h.keyRow_of_mem (treeByLabel_some htree).1)

theorem applyPublicTree_error {keyId : Option Nat} {e : Error}
    (h : applyPublicTree keyId snapshot db = (.error e, db')) : db' = db := by
  unfold applyPublicTree at h
  cases hempty : snapshot.nodes.isEmpty with
  | true =>
    rw [hempty] at h
    exact (Prod.mk.inj h).2.symm
  | false =>
    rw [hempty] at h
    exact Db.transaction_error h

theorem Targeted.reflects {keyId : Option Nat}
    (h : Targeted db mid keyId snapshot id row) (hvalid : snapshot.Valid)
    (hadopted : Adopted mid db' id snapshot) : Reflects db db' id snapshot := by
  have hreflects := hadopted.reflects hvalid h.row_eq h.label_eq
  refine { hreflects with nodes := fun node hnode => ?_ }
  have hshare : db.keptShare id node = mid.keptShare id node := by rw [h.frame]; rfl
  rw [hshare]
  exact hreflects.nodes node hnode

/-- **Taking over a snapshot.**  For every store and every snapshot that the relay accepts, that is
for the named tree, no older than the stored one and with usable keys: the store takes it over, and
then shows it, exactly if the generation is not zero and no sealed share is under a label that
the snapshot makes a split; what it takes over it shows; and on an error nothing has changed. -/
theorem applyPublicTree_reflects_iff {keyId : Option Nat} (h : db.Sound)
    (hvalid : snapshot.validatePublicTree = .ok ()) (haddressed : db.Addressed keyId snapshot)
    (hkeys : UsableKeys db snapshot) :
    ((∃ id db', applyPublicTree keyId snapshot db = (.ok id, db')
        ∧ (∀ given, keyId = some given → id = given) ∧ Reflects db db' id snapshot)
      ↔ db.Takes keyId snapshot)
    ∧ (∀ id db', applyPublicTree keyId snapshot db = (.ok id, db') → Reflects db db' id snapshot)
    ∧ ∀ e db', applyPublicTree keyId snapshot db = (.error e, db') → db' = db := by
  have hvalid := PublicTree.validatePublicTree_ok_iff.mp hvalid
  obtain ⟨id, mid, row, htarget, htargeted, -⟩ := targetKey_run h haddressed
  have hkeys : UsableKeys mid snapshot := by
    rw [htargeted.frame]
    exact { hkeys with }
  -- an application that succeeds adopts the snapshot
  have hok : ∀ {result db'}, applyPublicTree keyId snapshot db = (.ok result, db') →
      result = id ∧ row.publicGeneration ≤ snapshot.generation.toNat ∧ Adopted mid db' id snapshot := by
    intro result db' happly
    obtain ⟨rfl, hle, hmerge⟩ := (applyPublicTree_ok_iff hvalid htarget htargeted.row_eq).mp happly
    exact ⟨rfl, hle, mergeTree_ok htargeted.sound hvalid htargeted.row_eq hle hmerge⟩
  refine ⟨⟨?_, ?_⟩, fun result db' happly => ?_, fun e db' => applyPublicTree_error⟩
  · rintro ⟨result, db', happly, -, -⟩
    obtain ⟨-, hle, hadopted⟩ := hok happly
    exact htargeted.takes_iff.mpr ⟨hle, hadopted.unsealed⟩
  · intro htakes
    obtain ⟨hle, hunsealed⟩ := htargeted.takes_iff.mp htakes
    obtain ⟨db', hmerge⟩ :=
      mergeTree_run htargeted.sound hvalid htargeted.row_eq hle hkeys hunsealed
    have happly := (@applyPublicTree_ok_iff _ db _ db' _ _ _ id _ hvalid htarget htargeted.row_eq).mpr
      ⟨rfl, hle, hmerge⟩
    exact ⟨id, db', happly, htargeted.given, htargeted.reflects hvalid (hok happly).2.2⟩
  · obtain ⟨rfl, -, hadopted⟩ := hok happly
    exact htargeted.reflects hvalid hadopted

end Reflect

namespace Sample

section Apply

attribute [local instance] keyCrypto

def sealedPair : Store where
  hardwareKeys := [memberKey 1 "a", memberKey 2 "b"]
  keys := [{ id := 1, label := "org" }]
  nodes := [splitRow 1 none "M" 1, { leafRow 2 1 "M.A" 1 with wrappedShare := some [10] },
    { leafRow 3 1 "M.B" 2 with wrappedShare := some [20] }]

def publicLeaf (label parent : String) (key : Nat) : PublicNode :=
  ⟨label, some parent, none, true, some (memberKey key "").fingerprint,
    some (hexEncode (memberKey key "").publicKey)⟩

/-- The second leaf has got a key that is not yet registered, and the leaves are linked. -/
def rekeyed : PublicTree where
  label := "org"
  generation := 2
  nodes := [publicLeaf "M.B" "M" 3, ⟨"M", none, some 1, true, none, none⟩, publicLeaf "M.A" "M" 1]
  whitelist := [⟨"M.A", "M.B"⟩]
  links := [⟨"M.B", "M.A"⟩]

def deepened : PublicTree where
  label := "org"
  generation := 2
  nodes := [⟨"M", none, some 1, true, none, none⟩, ⟨"M.A", some "M", some 1, true, none, none⟩,
    publicLeaf "M.A.1" "M.A" 1, publicLeaf "M.B" "M" 2]
  whitelist := []
  links := []

theorem sealedPair_addressed (snapshot : PublicTree) (hlabel : snapshot.label = "org")
    (hgeneration : snapshot.generation = 2) : sealedPair.Addressed (some 1) snapshot := by
  refine ⟨{ id := 1, label := "org" }, rfl, hlabel.symm, ?_⟩
  rw [hgeneration]
  decide

/-- A store takes over a new key and a link, and keeps the share of the leaf that keeps its key. -/
theorem sealedPair_reflects_rekeyed :
    (∃ id db', applyPublicTree (some 1) rekeyed sealedPair = (.ok id, db')
        ∧ (∀ given, some 1 = some given → id = given) ∧ Reflects sealedPair db' id rekeyed) := by
  have hkeys : UsableKeys sealedPair rekeyed := by decide +kernel
  have htakes : sealedPair.Takes (some 1) rekeyed := by
    refine ⟨by decide, fun id hid => ?_⟩
    obtain rfl : id = 1 := (Option.some.inj hid).symm
    decide +kernel
  exact (applyPublicTree_reflects_iff (by decide +kernel) (by decide +kernel)
    (sealedPair_addressed rekeyed rfl rfl) hkeys).1.mpr htakes

/-- A snapshot that the relay accepts, no older than the store and with registered keys, and the
`CHECK` on `key_nodes` refuses it: the share sealed under "M.A" would be kept in a split. -/
theorem sealedPair_refuses_deepened :
    sealedPair.Sound ∧ deepened.validatePublicTree = .ok ()
      ∧ sealedPair.Addressed (some 1) deepened ∧ UsableKeys sealedPair deepened
      ∧ (applyPublicTree (some 1) deepened sealedPair).1 = .error .database :=
  ⟨by decide +kernel, by decide +kernel, sealedPair_addressed deepened rfl rfl, by decide +kernel,
    by decide +kernel⟩

end Apply

end Sample

end Store

end KeyQuorum
