/-
  **WHAT A STORE PUBLISHES, ALONG WHOLE RUNS** (`project_local` in
  `key_tree.rs`, and every operation on a tree taken together).

  A run starts without trees and goes on by splits, bridge operations,
  evictions, additions, slices and snapshots.  A slice and a snapshot drop
  nodes and keep the whitelist entries that name a dropped one, for the day
  the peer is seen again; what is exported until then is refused by the
  relay.
-/
import KeyQuorum.KeyTree.Wiring
import KeyQuorum.KeyTree.Dealing

namespace KeyQuorum

open List Foundation

/-! ## §1. A local slice. -/

def KeyQuorumTree.visibleLabelsForLinks (tree : KeyQuorumTree) (links : List PublicEdge)
    (asLabel : String) : Except Error (List String) := do
  let start ← tree.indexByLabel asLabel
  let rows : ParentRows := tree.nodes.map fun node =>
    (node.id, node.parentIdx.bind fun i => (tree.nodes[i]?).map KeyNode.id)
  .ok (Parents.visibleFromMaps rows links ((tree.nodes[start]?).toList.map KeyNode.id))

namespace Store

def visibleLabels (db : Store) (keyId : Nat) (asLabel : String) : Except Error (List String) := do
  let tree ← KeyQuorumTree.load db keyId
  tree.visibleLabelsForLinks (db.listBridges keyId).established asLabel

section Published

variable [Crypto]

def projectLocal (keyId : Nat) (asLabel : String) : Db (List String) := do
  let db ← Op.read
  let visible ← Op.lift (db.visibleLabels keyId asLabel)
  let full ← Op.lift (db.exportPublicTree keyId)
  let _ ← applyPublicTree (some keyId) (full.filterPublicTree visible)
  return visible

variable {db mid db' : Store} {keyId : Nat}

/-! ## §2. A new tree. -/

section Split

variable [Sharks] [SealedBoxes] {rng : String → Nat} {label : String} {secret : Bytes} {spec : NodeSpec}

omit [Sharks] [Crypto] in
theorem Planned.row_threshold {node : Planned} (hfits : node.spec.Fits mid)
    (h : (node.row db rng keyId).threshold = some threshold) : UInt8.ofNat threshold ≠ 0 := by
  unfold Planned.row at h
  split at h
  next => cases h
  next hspec =>
    rw [hspec] at hfits
    rw [← Option.some.inj h, UInt8.ofNat_toNat]
    intro hzero
    rw [hzero] at hfits
    exact absurd hfits.1 (Nat.lt_irrefl 0)

omit [SealedBoxes] [Crypto] in
theorem plan_rooted
    (hstep : ∀ node ∈ plan rng none base secret spec, ∀ q, node.parentId = some q → R node.id q) :
    ∀ id, ∀ node ∈ plan rng none base secret spec, node.id = id →
      Relation.ReflTransGen R node.id base := by
  intro id
  induction id using Nat.strong_induction_on with
  | h id ih =>
    intro node hnode hid
    cases hparent : node.parentId with
    | none =>
      rcases mem_plan hnode with rfl | ⟨q, hq, -⟩
      · exact .refl
      · cases hparent.symm.trans hq
    | some q =>
      obtain ⟨other, hother, rfl⟩ := plan_parent_mem hnode hparent
      have hlt := plan_parent_lt spec none base secret (fun p hp => by cases hp) node hnode _ hparent
      exact .head (hstep node hnode _ hparent) (ih other.id (hid ▸ hlt) other hother rfl)

theorem Sound.plan_publishable (h : db.Sound) (hnew : ∀ row ∈ db.nodes, row.keyId ≠ keyId)
    (hvalid : spec.Valid mid)
    (hcomplete : ∀ node ∈ plan rng none db.freshNode secret spec, node.Complete db rng)
    (hdb' : db' = db.withPlan rng keyId (plan rng none db.freshNode secret spec)) :
    Grown (db'.shape keyId) ∧ db'.Wired keyId := by
  generalize hbase : db.freshNode = base at hcomplete hdb'
  have hspecs := plan_specs spec none base secret hcomplete
  have hspec : ∀ {node}, node ∈ plan rng none base secret spec → node.spec ∈ spec.subspecs :=
    fun hnode => hspecs ▸ mem_map_of_mem hnode
  have hlabel : ∀ {node}, node ∈ plan rng none base secret spec → node.spec.label ∈ spec.labels :=
    fun hnode => mem_map_of_mem (hspec hnode)
  -- the rows of the tree are the planned ones
  have hrow : ∀ {row}, row ∈ db'.nodes → row.keyId = keyId →
      ∃ node ∈ plan rng none base secret spec, node.row db rng keyId = row := by
    intro row hrow hkey
    rw [hdb'] at hrow
    rcases mem_append.mp hrow with hrow | hrow
    · exact absurd hkey (hnew row hrow)
    · exact mem_map.mp hrow
  have hadded : ∀ {node}, node ∈ plan rng none base secret spec → node.row db rng keyId ∈ db'.nodes := by
    intro node hnode
    rw [hdb']
    exact mem_append_right _ (mem_map_of_mem hnode)
  have hold : ∀ {node}, node ∈ plan rng none base secret spec → node.id ∉ db.nodes.map NodeRow.id := by
    intro node hnode hin
    have hge := (plan_id_mem.mp (mem_map_of_mem hnode)).1
    have hlt : node.id < db.freshNode := lt_freshId hin
    omega
  have hhead := hadded (plan_head_mem spec none base secret)
  refine ⟨⟨?_, ?_, base, ⟨_, _, _, hhead, by simp, by simp, by simp, rfl, rfl⟩, ?_, ?_⟩, ?_, ?_⟩
  · rintro id parent label threshold ⟨row, hmem, hkey, -, -, rfl, -⟩
    obtain ⟨node, hnode, rfl⟩ := hrow hmem hkey
    rw [Planned.row_label]
    exact fun hempty => hvalid.labels_ne (hempty ▸ hlabel hnode)
  · rintro id parent label threshold ⟨row, hmem, hkey, -, -, -, hthreshold⟩
    obtain ⟨node, hnode, rfl⟩ := hrow hmem hkey
    exact Planned.row_threshold (hvalid.fits _ (hspec hnode)) hthreshold
  · rintro id label threshold ⟨row, hmem, hkey, rfl, hnone, -, -⟩
    obtain ⟨node, hnode, rfl⟩ := hrow hmem hkey
    rw [Planned.row_parentId] at hnone
    rw [Planned.row_id]
    rcases mem_plan hnode with rfl | ⟨q, hq, -⟩
    · rfl
    · cases hnone.symm.trans hq
  · rintro id parent label threshold ⟨row, hmem, hkey, rfl, -, -, -⟩
    obtain ⟨node, hnode, rfl⟩ := hrow hmem hkey
    rw [Planned.row_id]
    refine plan_rooted (fun node hnode q hq => ?_) node.id node hnode rfl
    exact ⟨_, _, node.row db rng keyId, hadded hnode, by simp, by simp, by simpa using hq, rfl, rfl⟩
  · rintro a b ⟨row, hmem, ⟨hkey, rfl⟩, hbridge⟩
    obtain ⟨node, hnode, rfl⟩ := hrow hmem hkey
    rw [Planned.row_id, hdb'] at hbridge
    rcases mem_append.mp hbridge with hbridge | hbridge
    · exact absurd (h.bridgeNodes _ hbridge) (hold hnode)
    · obtain ⟨other, hother, hbridge⟩ := mem_flatMap.mp hbridge
      obtain ⟨peer, hpeer, heq⟩ := mem_map.mp hbridge
      obtain ⟨hid, rfl⟩ := BridgeRow.mk.inj heq
      have hnodup : ((plan rng none base secret spec).map Planned.id).Nodup := by
        rw [plan_ids]
        exact nodup_range'
      obtain rfl := inj_on_of_nodup_map hnodup hother hnode hid
      obtain ⟨hne, hin⟩ := hvalid.peers _ (hspec hnode) peer hpeer
      rw [Planned.row_label]
      refine ⟨hne.symm, ?_⟩
      have hlabels : ((plan rng none base secret spec).map (Planned.row db rng keyId)).map
          NodeRow.label = spec.labels := plan_labels hcomplete
      rw [← hlabels, map_map] at hin
      obtain ⟨found, hfound, rfl⟩ := mem_map.mp hin
      exact ⟨found.row db rng keyId, hadded hfound, by simp, rfl⟩
  · rintro a b ⟨rowA, hrowA, rowB, hrowB, hisA, hisB, hlink⟩
    obtain ⟨node, hnode, rfl⟩ := hrow hrowA hisA.1
    rw [Planned.row_id, hdb'] at hlink
    exact absurd (h.linkNodes _ hlink).2.1 (hold hnode)

/-- **A new tree is in order** if it has a label. -/
theorem InOrder.split_iff (h : db.InOrder)
    (hok : split rng label secret spec db = (.ok keyId, db')) : db'.InOrder ↔ label ≠ "" := by
  obtain ⟨hsound, -⟩ := h.sound.split hok
  obtain ⟨hvalid, hid, -, hdb', hcomplete⟩ := split_ok hok
  have hkeys : db'.keys = db.keys ++ [{ id := keyId, label }] := by
    rw [hdb']
    rfl
  have hnew : ∀ row ∈ db.nodes, row.keyId ≠ keyId :=
    fun row hrow => hid ▸ ne_freshId (h.sound.nodeKeys row hrow)
  have hdbKey : ({ db with keys := db.keys ++ [{ id := keyId, label }] } : Store).Sound := by
    rw [hid]
    exact h.sound.insertKey label
  constructor
  · intro horder
    exact (horder.trees { id := keyId, label } (hkeys ▸ mem_concat_self)).label_ne
  · intro hlabel
    refine ⟨hsound, fun key hkey => ?_⟩
    rw [hkeys] at hkey
    rcases mem_snoc.mp hkey with hkey | rfl
    · -- an old tree: the planned rows are not its own, and neither are their entries
      have hother : key.id ≠ keyId := hid ▸ ne_freshId (mem_map_of_mem hkey)
      refine (h.trees key hkey).frame (shape_congr fun row hrow => ?_) ?_ fun _ _ hlink => ?_
      · rw [hdb']
        refine ⟨fun hin => ?_, mem_append_left _⟩
        rcases mem_append.mp hin with hin | hin
        · exact hin
        · obtain ⟨node, -, rfl⟩ := mem_map.mp hin
          rw [Planned.row_keyId] at hrow
          exact absurd hrow.symm hother
      · rintro _ _ _ _ ⟨row, hrow, -, rfl, -⟩ peer
        rw [hdb']
        refine ⟨fun hin => ?_, mem_append_left _⟩
        rcases mem_append.mp hin with hin | hin
        · exact hin
        · obtain ⟨node, hnode, hin⟩ := mem_flatMap.mp hin
          obtain ⟨_, -, heq⟩ := mem_map.mp hin
          have hge := (plan_id_mem.mp (mem_map_of_mem hnode)).1
          have hlt : row.id < db.freshNode :=
            lt_freshId (mem_map_of_mem hrow)
          have hsame := (BridgeRow.mk.inj heq).1
          omega
      · rw [hdb'] at hlink
        exact hlink
    · obtain ⟨hgrown, hwired⟩ := hdbKey.plan_publishable hnew hvalid hcomplete hdb'
      exact ⟨hlabel, hgrown, hwired⟩

end Split

/-! ## §3. A snapshot. -/

/-- No whitelist entry of a node with one of the labels names a node without. -/
def KeepsPeers (db : Store) (keyId : Nat) (labels : List String) : Prop :=
  ∀ row ∈ db.nodes, row.keyId = keyId → row.label ∈ labels →
    ∀ peer, ⟨row.id, peer⟩ ∈ db.bridges → peer ∈ labels

variable {snapshot : PublicTree}

section

variable (h : Adopted db db' keyId snapshot)

include h

theorem Adopted.grown (hvalid : snapshot.Valid) : Grown (db'.shape keyId) := by
  refine grown_of_valid h.sound hvalid (fun row hrow hkey => ?_) fun node hnode => ?_
  · obtain ⟨node, hnode, hlabel⟩ := PublicTree.mem_labels.mp (h.labels row hrow hkey)
    obtain ⟨shown, hshown, hshownKey, hshows, -⟩ := h.rows node hnode
    obtain rfl := h.sound.isRow_unique hshown hrow ⟨hshownKey, hshows.label_eq.trans hlabel⟩ ⟨hkey, rfl⟩
    refine ⟨node, hnode, hlabel, hshows.parent_eq.symm, ?_⟩
    rw [hshows.threshold_eq]
    cases node.threshold <;> simp
  · exact h.row_of_label (mem_map_of_mem hnode)

theorem Adopted.labelled_iff : db'.labelled keyId label ↔ label ∈ snapshot.labels := by
  unfold labelled
  rw [any_eq_true]
  constructor
  · rintro ⟨row, hrow, hin⟩
    simp only [Bool.and_eq_true, decide_eq_true_eq] at hin
    exact hin.2 ▸ h.labels row hrow hin.1
  · intro hin
    obtain ⟨row, hrow, hkey, hlabel⟩ := h.row_of_label hin
    exact ⟨row, hrow, by simp [hkey, hlabel]⟩

/-- **After a snapshot the tree is wired** exactly if no entry of a kept node names a dropped
one. -/
theorem Adopted.wired_iff (hbefore : db.Sound) (hvalid : snapshot.Valid) :
    db'.Wired keyId ↔ db.KeepsPeers keyId snapshot.labels := by
  constructor
  · intro hwired row hrow hkey hlabel peer hbridge
    by_contra hdropped
    obtain ⟨kept, hkept, hid, hisKept⟩ := h.ids row hrow fun _ => hlabel
    have hstays : ⟨row.id, peer⟩ ∈ db'.bridges := by
      refine (h.bridges _).mpr (.inl ⟨hbridge, mem_map.mpr ⟨kept, hkept, hid⟩, ?_⟩)
      rintro ⟨-, hpeer⟩
      exact hdropped (h.labelled_iff.mp hpeer)
    obtain ⟨-, named, hnamed, hisNamed⟩ := hwired.allowed row.label peer
      ⟨kept, hkept, hkey ▸ hisKept, hid ▸ hstays⟩
    exact hdropped (hisNamed.2 ▸ h.labels named hnamed hisNamed.1)
  · intro hpeers
    have hlisted : ∀ {edge : PublicEdge} {row : NodeRow}, row ∈ db'.nodes →
        IsRow keyId edge.from_ row → edge ∈ snapshot.whitelist → ⟨row.id, edge.to_⟩ ∈ db'.bridges := by
      intro edge row hrow hisRow hedge
      refine (h.bridges _).mpr (.inr ⟨edge, hedge, ?_⟩)
      exact ⟨row, hrow, hisRow, rfl⟩
    constructor
    · rintro a b ⟨row, hrow, hisRow, hbridge⟩
      rcases (h.bridges _).mp hbridge with ⟨hold, -, hnot⟩ | ⟨edge, hedge, other, hother, hisOther, heq⟩
      · -- an entry from before: its peer would have been kept, and the entry deleted
        refine absurd ⟨inTree_of_mem hrow hisRow.1, h.labelled_iff.mpr ?_⟩ hnot
        obtain ⟨old, hmem, hid⟩ := mem_map.mp (hbefore.bridgeNodes _ hold)
        obtain ⟨hkey, hlabel⟩ := h.origin old hmem row hrow hid.symm
        refine hpeers old hmem (hkey.symm.trans hisRow.1) ?_ b (hid ▸ hold)
        rw [← hlabel]
        exact h.labels row hrow hisRow.1
      · obtain ⟨hid, rfl⟩ := BridgeRow.mk.inj heq
        obtain rfl := h.sound.row_unique hrow hother hid
        obtain ⟨hne, -, hto⟩ := hvalid.edges edge (mem_append_left _ hedge)
        rw [← hisRow.2, hisOther.2]
        exact ⟨hne, h.row_of_label hto⟩
    · rintro a b ⟨rowA, hrowA, rowB, hrowB, hisA, hisB, hlink⟩
      rcases (h.links _).mp hlink with ⟨-, -, -, hnot⟩ | ⟨edge, hedge, x, hx, y, hy, hisX, hisY, hjoins⟩
      · exact absurd ⟨inTree_of_mem hrowA hisA.1, inTree_of_mem hrowB hisB.1⟩ hnot
      · have hentry := (hvalid.listed edge hedge).imp (hlisted hx hisX) (@hlisted edge.flip y hy hisY)
        rcases h.sound.joins_cases hrowA hrowB hx hy (.inl rfl) hjoins with ⟨rfl, rfl⟩ | ⟨rfl, rfl⟩
        · rw [← hisA.2, ← hisB.2, hisX.2, hisY.2]
          exact hentry.imp (fun hin => ⟨_, hrowA, hisX, hin⟩) fun hin => ⟨_, hrowB, hisY, hin⟩
        · rw [← hisA.2, ← hisB.2, hisX.2, hisY.2]
          exact (hentry.imp (fun hin => ⟨_, hrowB, hisX, hin⟩) fun hin => ⟨_, hrowA, hisY, hin⟩).symm

end

variable {key row : KeyRow}

theorem Adopted.publishable_of_ne (h : Adopted db db' keyId snapshot) (hne : key.id ≠ keyId)
    (hkey : db.Publishable key) : db'.Publishable key := by
  have hrows : ∀ row, row.keyId = key.id → (row ∈ db'.nodes ↔ row ∈ db.nodes) :=
    fun row hrow => h.otherTrees row (hrow.trans_ne hne)
  -- the row of an id of this tree is not in the tree of the snapshot
  have hapart : ∀ {row}, row ∈ db.nodes → row.keyId = key.id → db'.inTree keyId row.id ≠ true := by
    intro row hrow hrowKey hin
    obtain ⟨other, hother, hin⟩ := any_eq_true.mp hin
    simp only [Bool.and_eq_true, decide_eq_true_eq] at hin
    obtain rfl := h.sound.row_unique hother ((hrows row hrowKey).mpr hrow) hin.2
    exact hne (hrowKey.symm.trans hin.1)
  refine hkey.frame (shape_congr hrows) ?_ ?_
  · rintro _ _ _ _ ⟨row, hrow, hrowKey, rfl, -⟩ peer
    have hmem := (hrows row hrowKey).mpr hrow
    constructor
    · intro hin
      rcases (h.bridges _).mp hin with ⟨hold, -⟩ | ⟨edge, -, other, hother, hisOther, heq⟩
      · exact hold
      · obtain ⟨hid, -⟩ := BridgeRow.mk.inj heq
        obtain rfl := h.sound.row_unique hmem hother hid
        exact absurd (hrowKey.symm.trans hisOther.1) hne
    · intro hin
      exact (h.bridges _).mpr (.inl ⟨hin, mem_map_of_mem hmem,
        fun ⟨htree, _⟩ => hapart hrow hrowKey htree⟩)
  · rintro _ _ _ _ ⟨a, ha, haKey, rfl, -⟩ other hlink
    rcases (h.links _).mp hlink with ⟨hold, -⟩ | ⟨edge, -, x, hx, y, hy, hisX, hisY, hjoins⟩
    · exact hold
    · have hmem := (hrows a haKey).mpr ha
      rcases hjoins.2 with heq | heq
      · obtain rfl := h.sound.row_unique hmem hx (LinkRow.mk.inj heq).1
        exact absurd (haKey.symm.trans hisX.1) hne
      · obtain rfl := h.sound.row_unique hmem hy (LinkRow.mk.inj heq).1
        exact absurd (haKey.symm.trans hisY.1) hne

omit [Crypto] in
theorem mem_withGeneration {keys : List KeyRow} {generation : Nat}
    (h : key ∈ withGeneration keys keyId generation) :
    ∃ old ∈ keys, key.id = old.id ∧ key.label = old.label := by
  obtain ⟨old, hold, rfl⟩ := mem_map.mp h
  refine ⟨old, hold, ?_⟩
  split <;> exact ⟨rfl, rfl⟩

omit [Crypto] in
theorem Publishable.of_label (h : db.Publishable old) (hid : key.id = old.id)
    (hlabel : key.label = old.label) : db.Publishable key :=
  ⟨hlabel ▸ h.label_ne, hid ▸ h.grown, hid ▸ h.wired⟩

/-- **A snapshot keeps a store in order** exactly if no entry of a kept node names a dropped
one. -/
theorem Adopted.inOrder_iff (h : Adopted db db' keyId snapshot) (hbefore : db.Sound)
    (hvalid : snapshot.Valid) (hrow : db.keyRow keyId = some row) (hlabel : row.label = snapshot.label)
    (hothers : ∀ key ∈ db.keys, key.id ≠ keyId → db.Publishable key) :
    db'.InOrder ↔ db.KeepsPeers keyId snapshot.labels := by
  rw [← h.wired_iff hbefore hvalid]
  constructor
  · intro horder
    have hkey := mem_of_find?_eq_some (keyRow_withGeneration hrow h.keys)
    have hid : row.id = keyId := by simpa using List.find?_some hrow
    exact hid ▸ (horder.trees _ hkey).wired
  · intro hwired
    refine ⟨h.sound, fun key hkey => ?_⟩
    rw [h.keys] at hkey
    obtain ⟨old, hold, hid, hkeyLabel⟩ := mem_withGeneration hkey
    by_cases htree : old.id = keyId
    · have hsame : old = row := by
        have hfound := hbefore.keyRow_of_mem hold
        rw [htree, hrow] at hfound
        exact (Option.some.inj hfound).symm
      refine ⟨?_, ?_, ?_⟩
      · rw [hkeyLabel, hsame, hlabel]
        exact hvalid.label_ne
      · rw [hid, htree]
        exact h.grown hvalid
      · rw [hid, htree]
        exact hwired
    · exact (h.publishable_of_ne htree (hothers old hold htree)).of_label hid hkeyLabel

variable {given : Option Nat}

/-- **Taking over a snapshot keeps order** exactly if no entry of a kept node names a dropped
one. -/
theorem InOrder.apply_iff (h : db.InOrder) (hvalid : snapshot.Valid) {id : Nat}
    (hok : applyPublicTree given snapshot db = (.ok id, db')) :
    db'.Sound ∧ (db'.InOrder
      ↔ ∀ id, db.target given snapshot = some id → db.KeepsPeers id snapshot.labels) := by
  obtain ⟨target, mid, row, htarget, ⟨hsound, hframe, -, hrow, hlabel, hknown⟩, hkeys⟩ :=
    targetKey_run h.sound (addressed_of_ok h.sound hok)
  obtain ⟨rfl, hle, hmerge⟩ := (applyPublicTree_ok_iff hvalid htarget hrow).mp hok
  have hadopted := mergeTree_ok hsound hvalid hrow hle hmerge
  have hothers : ∀ key ∈ mid.keys, key.id ≠ id → mid.Publishable key := by
    intro key hkey hne
    rw [hframe]
    exact (h.trees key (hkeys key hkey hne)).frame rfl (fun _ _ => .rfl) fun _ _ hlink => hlink
  have hpeers : mid.KeepsPeers id snapshot.labels ↔ db.KeepsPeers id snapshot.labels := by
    unfold KeepsPeers
    rw [show mid.nodes = db.nodes by rw [hframe], show mid.bridges = db.bridges by rw [hframe]]
  refine ⟨hadopted.sound, (hadopted.inOrder_iff hsound hvalid hrow hlabel hothers).trans
    (hpeers.trans ?_)⟩
  rcases hknown with ⟨htree, -⟩ | ⟨htree, -, hnone⟩
  · rw [htree]
    exact ⟨fun hall other hother => Option.some.inj hother ▸ hall, fun hall => hall id rfl⟩
  · rw [htree]
    exact ⟨fun _ other hother => (by cases hother),
      fun _ node hnode hkey => absurd hkey (hnone node hnode)⟩

theorem applyPublicTree_atomic :
    Op.Atomic (applyPublicTree given snapshot) :=
  fun _ _ herror => applyPublicTree_error (Op.run_eq herror)

/-! ## §4. A slice. -/

variable {asLabel : String} {visible : List String}

theorem Sound.visibleLabels_ok (h : db.Sound) (hok : db.visibleLabels row.id asLabel = .ok visible) :
    asLabel ∈ (db.exported row).labels
      ∧ visible = (db.exported row).visibleLabelsInPublicTree [asLabel] := by
  obtain ⟨tree, hload, hok⟩ := try_ok hok
  obtain ⟨start, hstart, hok⟩ := try_ok hok
  obtain ⟨other, hmem, ⟨hkey, hlabel⟩, -, hnode⟩ := indexByLabel_row hload hstart
  have hrows : (tree.nodes.map fun node =>
      (node.id, node.parentIdx.bind fun i => (tree.nodes[i]?).map KeyNode.id))
      = (db.exported row).rows := by
    refine ext_getElem? fun i => ?_
    show _ = (((db.treeNodes row.id).map db.shown).map _)[i]?
    rw [getElem?_map, getElem?_map, getElem?_map, (KeyQuorumTree.load_ok hload).nodes,
      KeyQuorumTree.getElem?_loadNodes, ← (KeyQuorumTree.load_ok hload).nodes]
    cases hrow : (db.treeNodes row.id)[i]? with
    | none => rfl
    | some found =>
      have hparent := h.parentIdx_label hload hrow
      exact congrArg (fun parent => some (found.label, parent)) hparent
  refine ⟨mem_exported_labels.mpr ⟨other, hmem, hkey, hlabel⟩, ?_⟩
  rw [← Except.ok.inj hok, hrows, hnode]
  show Parents.visibleFromMaps _ _ [other.label] = _
  rw [hlabel]
  rfl

theorem InOrder.slice_valid (h : db.InOrder) (hrow : row ∈ db.keys)
    (hok : db.visibleLabels row.id asLabel = .ok visible) :
    ((db.exported row).filterPublicTree visible).Valid := by
  obtain ⟨hlabel, hgrown, hwired⟩ := h.trees row hrow
  have hvalid := exported_valid h.sound hlabel hgrown hwired
  obtain ⟨hin, rfl⟩ := h.sound.visibleLabels_ok hok
  exact hvalid.filterPublicTree (fun x hx p hp => hvalid.visible_parent hx hp)
    ⟨asLabel, hin, hvalid.seed_visible (.head _) hin⟩

omit [Crypto] in
theorem exportPublicTree_row (h : db.exportPublicTree keyId = .ok t) :
    ∃ row ∈ db.keys, row.id = keyId := by
  unfold exportPublicTree at h
  cases hrow : db.keyRow keyId with
  | none =>
    rw [hrow] at h
    cases h
  | some row => exact ⟨row, mem_of_find?_eq_some hrow, by simpa using List.find?_some hrow⟩

/-- **A slice keeps order** exactly if no entry of a visible node names one that is not. -/
theorem InOrder.projectLocal_iff (h : db.InOrder)
    (hok : projectLocal keyId asLabel db = (.ok visible, db')) :
    db'.Sound ∧ (db'.InOrder
      ↔ ∀ visible, db.visibleLabels keyId asLabel = .ok visible → db.KeepsPeers keyId visible) := by
  obtain ⟨seen, hseen, hok⟩ := Op.lift_bind_ok (Op.read_bind_ok hok)
  obtain ⟨full, hfull, hok⟩ := Op.lift_bind_ok hok
  obtain ⟨_, _, happly, hok⟩ := Op.bind_ok hok
  obtain ⟨rfl, rfl⟩ := Op.pure_ok hok
  obtain ⟨row, hrow, rfl⟩ := exportPublicTree_row hfull
  obtain ⟨tree, hload, -⟩ := try_ok hseen
  rw [h.sound.export_eq hrow hload] at hfull
  cases hfull
  obtain ⟨hsound, hiff⟩ := h.apply_iff (h.slice_valid hrow hseen) happly
  refine ⟨hsound, hiff.trans ?_⟩
  -- the peers of entries are labels of the tree, so being visible is what is asked of them
  have hlabels : db.KeepsPeers row.id ((db.exported row).filterPublicTree seen).labels
      ↔ db.KeepsPeers row.id seen := by
    constructor
    · intro hall node hnode hkey hlabel peer hbridge
      have hin : node.label ∈ ((db.exported row).filterPublicTree seen).labels :=
        PublicTree.mem_filterPublicTree_labels.mpr
          ⟨mem_exported_labels.mpr ⟨node, hnode, hkey, rfl⟩, hlabel⟩
      exact (PublicTree.mem_filterPublicTree_labels.mp (hall node hnode hkey hin peer hbridge)).2
    · intro hall node hnode hkey hlabel peer hbridge
      refine PublicTree.mem_filterPublicTree_labels.mpr ⟨mem_exported_labels.mpr ?_, ?_⟩
      · exact ((h.trees row hrow).wired.allowed _ _ ⟨node, hnode, ⟨hkey, rfl⟩, hbridge⟩).2
      · exact hall node hnode hkey (PublicTree.mem_filterPublicTree_labels.mp hlabel).2 peer hbridge
  rw [hseen]
  constructor
  · intro hall visible hvisible
    rw [← Except.ok.inj hvisible]
    exact hlabels.mp (hall row.id rfl)
  · intro hall id hid
    rw [← Option.some.inj hid]
    exact hlabels.mpr (hall seen rfl)

theorem projectLocal_atomic (keyId : Nat) (asLabel : String) :
    Op.Atomic (projectLocal keyId asLabel) :=
  .read_bind fun _ => .lift_bind fun visible => .lift_bind fun _ =>
    applyPublicTree_atomic.bind_pure fun _ => visible

/-! ## §5. Runs. -/

section Runs

variable [Sharks] [SealedBoxes]

inductive Change where
  | split (rng : String → Nat) (label : String) (secret : Bytes) (spec : NodeSpec)
  | allowBridge (keyId : Nat) (nodeLabel peerLabel : String)
  | denyBridge (keyId : Nat) (nodeLabel peerLabel : String)
  | addBridge (keyId : Nat) (fromLabel toLabel : String)
  | removeBridge (keyId : Nat) (fromLabel toLabel : String)
  | bindPair (keyId : Nat) (aLabel bLabel : String)
  | evictAndRefresh (rounds : Nat → Nat) (rng : String → Nat) (onLeafRemoved : Except Error Unit)
      (keyId evictedNodeId : Nat) (survivorRawShares : Nat → Option Bytes)
  | addLeafAndReshare (rng : String → Nat) (keyId : Nat) (parentLabel newLabel : String)
      (newHardwareId : Nat) (presented : Nat → Option Bytes)
  | projectLocal (keyId : Nat) (asLabel : String)
  | applyPublicTree (keyId : Option Nat) (snapshot : PublicTree)

def Change.run : Change → Db Unit
  | .split rng label secret spec => (Store.split rng label secret spec).void
  | .allowBridge keyId nodeLabel peerLabel => (Store.allowBridge keyId nodeLabel peerLabel).void
  | .denyBridge keyId nodeLabel peerLabel => (Store.denyBridge keyId nodeLabel peerLabel).void
  | .addBridge keyId fromLabel toLabel => (Store.addBridge keyId fromLabel toLabel).void
  | .removeBridge keyId fromLabel toLabel => (Store.removeBridge keyId fromLabel toLabel).void
  | .bindPair keyId aLabel bLabel => (Store.bindPair keyId aLabel bLabel).void
  | .evictAndRefresh rounds rng onLeafRemoved keyId evictedNodeId shares =>
    (Store.evictAndRefresh rounds rng onLeafRemoved keyId evictedNodeId shares).void
  | .addLeafAndReshare rng keyId parentLabel newLabel newHardwareId presented =>
    (Store.addLeafAndReshare rng keyId parentLabel newLabel newHardwareId presented).void
  | .projectLocal keyId asLabel => (Store.projectLocal keyId asLabel).void
  | .applyPublicTree keyId snapshot => (Store.applyPublicTree keyId snapshot).void

def Change.Validated : Change → Prop
  | .applyPublicTree _ snapshot => snapshot.validatePublicTree = .ok ()
  | _ => True

/-- A new tree has a label, and no whitelist entry of a node that a slice or a snapshot keeps
names a node that it drops. -/
def Change.Keeps (db : Store) : Change → Prop
  | .split _ label _ _ => label ≠ ""
  | .projectLocal keyId asLabel =>
    ∀ visible, db.visibleLabels keyId asLabel = .ok visible → db.KeepsPeers keyId visible
  | .applyPublicTree keyId snapshot =>
    ∀ id, db.target keyId snapshot = some id → db.KeepsPeers id snapshot.labels
  | _ => True

/-- The stores of runs: they start without trees, and every operation that succeeds meets the
condition. -/
inductive Reached : Store → Prop where
  | init {db : Store} (sound : db.Sound) (keys : db.keys = []) : Reached db
  | step {db db' : Store} {c : Change} {result : Except Error Unit} (before : Reached db)
      (validated : c.Validated) (run : c.run db = (result, db'))
      (keeps : result = .ok () → c.Keeps db) : Reached db'

variable {result : Except Error Unit}

omit [Sharks] [SealedBoxes] in
theorem InOrder.void_moves {α : Type} (h : db.InOrder) {m : Db α} (hm : Op.Moves KeepsOrder m)
    (hrun : m.void db = (result, db')) :
    db'.Sound ∧ (db'.InOrder ↔ (result = .ok () → True)) := by
  have horder : db'.InOrder := by
    obtain rfl := (Prod.mk.inj hrun).2
    exact hm db h
  exact ⟨horder.sound, fun _ _ => trivial, fun _ => horder⟩

omit [Sharks] [SealedBoxes] in
theorem InOrder.void_atomic {α : Type} (h : db.InOrder) {m : Db α} (hm : Op.Atomic m) {P : Prop}
    (hok : ∀ {a db'}, m db = (.ok a, db') → db'.Sound ∧ (db'.InOrder ↔ P)) (hrun : m.void db = (result, db')) :
    db'.Sound ∧ (db'.InOrder ↔ (result = .ok () → P)) := by
  cases hrun
  cases hresult : (m db).1 with
  | ok a =>
    obtain ⟨hsound, hiff⟩ := hok (Op.run_eq hresult)
    exact ⟨hsound, hiff.trans ⟨fun hp _ => hp, fun hp => hp rfl⟩⟩
  | error e =>
    rw [hm db e hresult]
    exact ⟨h.sound, fun _ herror => (by cases herror), fun _ => h⟩

/-- **One operation on a store in order.** -/
theorem Change.inOrder_iff (h : db.InOrder) {c : Change} (hvalidated : c.Validated)
    (hrun : c.run db = (result, db')) :
    db'.Sound ∧ (db'.InOrder ↔ (result = .ok () → c.Keeps db)) := by
  cases c with
  | split =>
    refine h.void_atomic (fun _ _ herror => Db.transaction_error (Op.run_eq herror)) (fun hok => ?_) hrun
    exact ⟨(h.sound.split hok).1, h.split_iff hok⟩
  | allowBridge keyId nodeLabel peerLabel =>
    exact h.void_moves allowBridge_keepsOrder hrun
  | denyBridge keyId nodeLabel peerLabel =>
    exact h.void_moves denyBridge_keepsOrder hrun
  | addBridge keyId fromLabel toLabel =>
    exact h.void_moves addBridge_keepsOrder hrun
  | removeBridge keyId fromLabel toLabel =>
    exact h.void_moves removeBridge_keepsOrder hrun
  | bindPair keyId aLabel bLabel =>
    exact h.void_moves bindPair_keepsOrder hrun
  | evictAndRefresh rounds rng onLeafRemoved keyId evictedNodeId shares =>
    exact h.void_moves evictAndRefresh_keepsOrder hrun
  | addLeafAndReshare rng keyId parentLabel newLabel newHardwareId presented =>
    exact h.void_moves addLeafAndReshare_keepsOrder hrun
  | projectLocal keyId asLabel =>
    exact h.void_atomic (projectLocal_atomic keyId asLabel) h.projectLocal_iff hrun
  | applyPublicTree given snapshot =>
    exact h.void_atomic applyPublicTree_atomic
      (h.apply_iff (PublicTree.validatePublicTree_ok_iff.mp hvalidated)) hrun

theorem Reached.inOrder (h : Reached db) : db.InOrder := by
  induction h with
  | init hsound hkeys => exact ⟨hsound, fun key hkey => by rw [hkeys] at hkey; cases hkey⟩
  | step _ hvalidated hrun hkeeps ih => exact (Change.inOrder_iff ih hvalidated hrun).2.mpr hkeeps

/-- **What a store publishes, along whole runs.**  In every run from a store without trees whose
successful operations meet the condition, every store reached publishes what the relay accepts;
and an operation on such a store goes on doing so exactly if it fails or meets the condition. -/
theorem reached_publishes_iff (h : Reached db) :
    db.Publishes ∧ ∀ (c : Change) (result : Except Error Unit) (db' : Store), c.Validated →
      c.run db = (result, db') → (db'.Publishes ↔ (result = .ok () → c.Keeps db)) := by
  refine ⟨h.inOrder.sound.publishes_iff.mpr h.inOrder, fun c result db' hvalidated hrun => ?_⟩
  obtain ⟨hsound, hiff⟩ := Change.inOrder_iff h.inOrder hvalidated hrun
  exact hsound.publishes_iff.trans hiff

end Runs

end Published

namespace Sample

section Slices

attribute [local instance] keyCrypto Sharks.gf256 SealedBoxes.toy

/-- Two branches; the leaf of the first may be bridged to that of the second. -/
def bridged : NodeSpec :=
  .split "M" 1 [.split "M.A" 1 [.leaf "M.A.1" 1 ["M.B.1"]] [], .split "M.B" 1 [.leaf "M.B.1" 2 []] []] []

def splitBridged : Change := .split dice "org" [42] bridged

def sliceFirst : Change := .projectLocal 1 "M.A.1"

def sliced : PublicTree where
  label := "org"
  generation := 1
  nodes := [⟨"M", none, some 1, true, none, none⟩, ⟨"M.A", some "M", some 1, true, none, none⟩,
    publicLeaf "M.A.1" "M.A" 1]
  whitelist := [⟨"M.A.1", "M.B.1"⟩]
  links := []

theorem registry_publishes_bridged :
    (splitBridged.run registry).1 = .ok ()
      ∧ (Change.run (.bindPair 1 "M.A.1" "M.B.1") (splitBridged.run registry).2).1 = .ok ()
      ∧ (Change.run (.bindPair 1 "M.A.1" "M.B.1") (splitBridged.run registry).2).2.keys
        = [{ id := 1, label := "org" }]
      ∧ (Change.run (.bindPair 1 "M.A.1" "M.B.1") (splitBridged.run registry).2).2.Publishes := by
  refine ⟨by decide +kernel, by decide +kernel, by decide +kernel, ?_⟩
  have hstart : Reached registry := .init (by decide +kernel) rfl
  have hsplit : Reached (splitBridged.run registry).2 := by
    refine @Reached.step _ _ _ _ _ splitBridged _ hstart trivial rfl fun _ => ?_
    exact (by decide : "org" ≠ "")
  exact (reached_publishes_iff (@Reached.step _ _ _ _ _ (.bindPair 1 "M.A.1" "M.B.1") _ hsplit
    trivial rfl fun _ => trivial)).1

/-- After the slice the entry for the later peer "M.B.1" is still there, and the relay refuses the
export. -/
theorem bridged_slice_refused :
    registry.Sound ∧ registry.keys = [] ∧ splitBridged.Validated ∧ sliceFirst.Validated
      ∧ (splitBridged.run registry).1 = .ok ()
      ∧ (sliceFirst.run (splitBridged.run registry).2).1 = .ok ()
      ∧ ∃ t, (sliceFirst.run (splitBridged.run registry).2).2.exportPublicTree 1 = .ok t
        ∧ t.whitelist = [⟨"M.A.1", "M.B.1"⟩] ∧ t.labels = ["M", "M.A", "M.A.1"]
        ∧ t.validatePublicTree = .error .invalidBridge := by
  have hexport : (sliceFirst.run (splitBridged.run registry).2).2.exportPublicTree 1 = .ok sliced := by
    decide +kernel
  exact ⟨by decide +kernel, rfl, trivial, trivial, by decide +kernel, by decide +kernel, sliced,
    hexport, rfl, by decide +kernel, by decide +kernel⟩

end Slices

end Sample

end Store

end KeyQuorum
