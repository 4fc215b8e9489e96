/-
  **TREES THAT STAY IN ORDER** under the operations that change rows,
  whitelist and links one at a time.

  A database is in order if every tree of it could be published: the tree
  has a label, its rows form a tree, and its whitelist and links are of its
  own nodes.
-/
import KeyQuorum.KeyTree.Reshare

namespace KeyQuorum

open List Foundation

namespace Store

/-! ## §1. The invariant. -/

structure Publishable (db : Store) (key : KeyRow) : Prop where
  label_ne : key.label ≠ ""
  grown : Grown (db.shape key.id)
  wired : db.Wired key.id

variable [Crypto]

structure InOrder (db : Store) : Prop where
  sound : db.Sound
  trees : ∀ key ∈ db.keys, db.Publishable key

/-- Every tree of the store is exported, and the relay accepts what is exported. -/
def Publishes (db : Store) : Prop :=
  ∀ key ∈ db.keys, ∃ t, db.exportPublicTree key.id = .ok t ∧ t.validatePublicTree = .ok ()

def KeepsOrder (db db' : Store) : Prop := db.InOrder → db'.InOrder

instance : IsPreorder Store KeepsOrder where
  refl _ h := h
  trans _ _ _ hab hbc h := hbc (hab h)

section Order

variable {db db' : Store} {keyId : Nat} {u : Unit}

theorem Sound.publishes_iff (h : db.Sound) : db.Publishes ↔ db.InOrder := by
  constructor
  · intro hpublishes
    refine ⟨h, fun key hkey => ?_⟩
    obtain ⟨hlabel, hgrown, hwired⟩ := (h.export_validates_iff hkey).mp (hpublishes key hkey)
    exact ⟨hlabel, hgrown, hwired⟩
  · intro horder key hkey
    obtain ⟨hlabel, hgrown, hwired⟩ := horder.trees key hkey
    exact (h.export_validates_iff hkey).mpr ⟨hlabel, hgrown, hwired⟩

section

omit [Crypto]

variable {a b : String}

theorem allows_iff :
    db.Allows keyId a b
      ↔ ∃ id parent threshold, db.shape keyId id parent a threshold ∧ ⟨id, b⟩ ∈ db.bridges := by
  constructor
  · rintro ⟨row, hrow, ⟨hkey, rfl⟩, hbridge⟩
    exact ⟨_, _, _, shape_of_mem hrow hkey, hbridge⟩
  · rintro ⟨id, parent, threshold, ⟨row, hrow, hkey, rfl, -, hlabel, -⟩, hbridge⟩
    exact ⟨row, hrow, ⟨hkey, hlabel⟩, hbridge⟩

theorem Allows.mono (hnodes : db.nodes ⊆ db'.nodes) (hbridges : db.bridges ⊆ db'.bridges)
    (h : db.Allows keyId a b) : db'.Allows keyId a b := by
  obtain ⟨row, hrow, hisRow, hbridge⟩ := h
  exact ⟨row, hnodes hrow, hisRow, hbridges hbridge⟩

theorem pairs_iff :
    db.Pairs keyId a b ↔ ∃ id parent threshold id' parent' threshold',
      db.shape keyId id parent a threshold ∧ db.shape keyId id' parent' b threshold'
        ∧ ⟨id, id'⟩ ∈ db.links := by
  constructor
  · rintro ⟨rowA, hrowA, rowB, hrowB, ⟨hkeyA, rfl⟩, ⟨hkeyB, rfl⟩, hlink⟩
    exact ⟨_, _, _, _, _, _, shape_of_mem hrowA hkeyA, shape_of_mem hrowB hkeyB, hlink⟩
  · rintro ⟨id, parent, threshold, id', parent', threshold', ⟨rowA, hrowA, hkeyA, rfl, -, hlabelA, -⟩,
      ⟨rowB, hrowB, hkeyB, rfl, -, hlabelB, -⟩, hlink⟩
    exact ⟨rowA, hrowA, rowB, hrowB, ⟨hkeyA, hlabelA⟩, ⟨hkeyB, hlabelB⟩, hlink⟩

theorem exists_isRow_iff :
    (∃ row ∈ db.nodes, IsRow keyId label row)
      ↔ ∃ id parent threshold, db.shape keyId id parent label threshold := by
  constructor
  · rintro ⟨row, hrow, hkey, rfl⟩
    exact ⟨_, _, _, shape_of_mem hrow hkey⟩
  · rintro ⟨id, parent, threshold, row, hrow, hkey, -, -, hlabel, -⟩
    exact ⟨row, hrow, hkey, hlabel⟩

/-- **A tree that is not touched**: its rows are the same, and so are the entries and links of its
rows. -/
theorem Publishable.frame (h : db.Publishable key) (hshape : db'.shape key.id = db.shape key.id)
    (hbridges : ∀ {id parent label threshold}, db.shape key.id id parent label threshold → ∀ peer,
      ⟨id, peer⟩ ∈ db'.bridges ↔ ⟨id, peer⟩ ∈ db.bridges)
    (hlinks : ∀ {id parent label threshold}, db.shape key.id id parent label threshold → ∀ other,
      ⟨id, other⟩ ∈ db'.links → ⟨id, other⟩ ∈ db.links) : db'.Publishable key := by
  have hallows : ∀ a b, db'.Allows key.id a b ↔ db.Allows key.id a b := by
    intro a b
    rw [allows_iff, allows_iff, hshape]
    exact exists_congr fun _ => exists_congr fun _ => exists_congr fun _ =>
      and_congr_right fun hrow => hbridges hrow b
  refine ⟨h.label_ne, hshape ▸ h.grown, fun a b hab => ?_, fun a b hpairs => ?_⟩
  · rw [exists_isRow_iff, hshape, ← exists_isRow_iff]
    exact h.wired.allowed a b ((hallows a b).mp hab)
  · rw [pairs_iff, hshape] at hpairs
    obtain ⟨id, parent, threshold, other, above, threshold', ha, hb, hlink⟩ := hpairs
    rw [hallows, hallows]
    exact h.wired.paired a b
      (pairs_iff.mpr ⟨id, parent, threshold, other, above, threshold', ha, hb, hlinks ha other hlink⟩)

theorem shape_congr (h : ∀ row, row.keyId = keyId → (row ∈ db'.nodes ↔ row ∈ db.nodes)) :
    db'.shape keyId = db.shape keyId := by
  funext id parent label threshold
  exact propext (exists_congr fun row => and_congr_left fun hcols => h row hcols.1)

theorem allowBridge_ok (h : allowBridge keyId nodeLabel peerLabel db = (.ok u, db')) :
    nodeLabel ≠ peerLabel ∧ ∃ node ∈ db.nodes, ∃ peer ∈ db.nodes, IsRow keyId nodeLabel node
      ∧ IsRow keyId peerLabel peer ∧ db' = db.withBridge ⟨node.id, peerLabel⟩ := by
  obtain ⟨hne, h⟩ := Op.require_bind_ok h
  obtain ⟨nodeId, hnodeId, h⟩ := Op.lift_bind_ok (Op.read_bind_ok h)
  obtain ⟨peerId, hpeerId, h⟩ := Op.lift_bind_ok h
  obtain ⟨node, hnode, hnodeRow, rfl⟩ := nodeIdForLabel_ok hnodeId
  obtain ⟨peer, hpeer, hpeerRow, -⟩ := nodeIdForLabel_ok hpeerId
  obtain ⟨-, h⟩ := Op.require_bind_ok (Op.read_bind_ok h)
  exact ⟨of_decide_eq_true hne, node, hnode, peer, hpeer, hnodeRow, hpeerRow, Op.modify_ok h⟩

theorem addBridge_ok (h : addBridge keyId fromLabel toLabel db = (.ok u, db')) :
    ∃ a ∈ db.nodes, ∃ b ∈ db.nodes, IsRow keyId fromLabel a ∧ IsRow keyId toLabel b
      ∧ (⟨a.id, toLabel⟩ ∈ db.bridges ∨ ⟨b.id, fromLabel⟩ ∈ db.bridges)
      ∧ ∃ link, Joins link a b ∧ db' = db.withLink link := by
  obtain ⟨tree, hload, h⟩ := Op.lift_bind_ok (Op.read_bind_ok h)
  obtain ⟨i, hi, h⟩ := Op.lift_bind_ok h
  obtain ⟨j, hj, h⟩ := Op.lift_bind_ok h
  obtain ⟨-, h⟩ := Op.require_bind_ok h
  obtain ⟨a, ha, haRow, -, haNode⟩ := indexByLabel_row hload hi
  obtain ⟨b, hb, hbRow, -, hbNode⟩ := indexByLabel_row hload hj
  rw [haNode, hbNode] at h
  obtain ⟨hlisted, h⟩ := Op.require_bind_ok h
  obtain ⟨link, hlink, h⟩ := Op.lift_bind_ok h
  obtain ⟨hlt, hends⟩ := orderedPair_ok hlink
  obtain ⟨-, h⟩ := Op.require_bind_ok (Op.read_bind_ok h)
  have h := Op.modify_ok h
  rw [if_pos hlt] at h
  rw [Bool.or_eq_true, contains_iff_mem, contains_iff_mem, mem_allowedBridges,
    mem_allowedBridges] at hlisted
  exact ⟨a, ha, b, hb, haRow, hbRow, hlisted, link, ⟨hlt, hends⟩, h⟩

theorem addBridge_atomic :
    Op.Atomic (addBridge keyId fromLabel toLabel) := by
  refine .read_bind fun _ => .lift_bind fun tree => .lift_bind fun i => .lift_bind fun j =>
    .require_bind ?_
  split
  next =>
    exact .require_bind (.lift_bind fun _ => .read_bind fun _ => .require_bind (.modify _))
  next => exact fun _ _ _ => rfl

end

theorem KeepsRows.keepsOrder (h : KeepsRows db db') : KeepsOrder db db' := by
  intro horder
  refine ⟨h.sound horder.sound, fun key hkey => ?_⟩
  rw [h.keys] at hkey
  refine (horder.trees key hkey).frame (h.shape key.id) (fun _ _ => ?_) fun _ _ hlink => h.links ▸ hlink
  rw [h.bridges]

theorem InOrder.rewire (h : db.InOrder) (hsound : db'.Sound) (hkeys : db'.keys = db.keys)
    (hnodes : db'.nodes = db.nodes) (hwired : ∀ key ∈ db.keys, db'.Wired key.id) : db'.InOrder := by
  refine ⟨hsound, fun key hkey => ?_⟩
  rw [hkeys] at hkey
  have hshape : db'.shape key.id = db.shape key.id := by
    unfold shape
    rw [hnodes]
  exact ⟨(h.trees key hkey).label_ne, hshape ▸ (h.trees key hkey).grown, hwired key hkey⟩

/-! ## §2. Entries and links taken out. -/

/-- **Deleting entries and links** keeps a tree wired if a link that stays keeps the entries of
its two ends. -/
theorem Wired.sub (h : db.Sound) (hwired : db.Wired keyId) (hnodes : db'.nodes = db.nodes)
    (hbridges : db'.bridges ⊆ db.bridges) (hlinks : db'.links ⊆ db.links)
    (hlisted : ∀ a ∈ db.nodes, ∀ b ∈ db.nodes, a.keyId = keyId → b.keyId = keyId →
      ⟨a.id, b.id⟩ ∈ db'.links → (⟨a.id, b.label⟩ ∈ db.bridges → ⟨a.id, b.label⟩ ∈ db'.bridges)
          ∧ (⟨b.id, a.label⟩ ∈ db.bridges → ⟨b.id, a.label⟩ ∈ db'.bridges)) :
    db'.Wired keyId := by
  constructor
  · rintro a b ⟨row, hrow, hisRow, hbridge⟩
    rw [hnodes] at hrow ⊢
    exact hwired.allowed a b ⟨row, hrow, hisRow, hbridges hbridge⟩
  · rintro a b ⟨rowA, hrowA, rowB, hrowB, hisA, hisB, hlink⟩
    rw [hnodes] at hrowA hrowB
    obtain ⟨hforth, hback⟩ := hlisted rowA hrowA rowB hrowB hisA.1 hisB.1 hlink
    rcases hwired.paired a b ⟨rowA, hrowA, rowB, hrowB, hisA, hisB, hlinks hlink⟩ with
      ⟨row, hrow, hisRow, hbridge⟩ | ⟨row, hrow, hisRow, hbridge⟩
    · rw [h.isRow_unique hrow hrowA hisRow hisA, ← hisB.2] at hbridge
      refine .inl ⟨rowA, hnodes ▸ hrowA, hisA, ?_⟩
      rw [← hisB.2]
      exact hforth hbridge
    · rw [h.isRow_unique hrow hrowB hisRow hisB, ← hisA.2] at hbridge
      refine .inr ⟨rowB, hnodes ▸ hrowB, hisB, ?_⟩
      rw [← hisA.2]
      exact hback hbridge

theorem deleteLinks_keepsOrder (selected : Store → LinkRow → Bool) :
    Op.Moves KeepsOrder (deleteLinks selected) := by
  intro db h
  refine h.rewire (h.sound.filterLinks _) rfl rfl fun key hkey => ?_
  exact (h.trees key hkey).wired.sub h.sound rfl (List.Subset.refl _) (filter_subset_self _)
    fun a _ b _ _ _ _ => ⟨id, id⟩

section

omit [Crypto]

theorem denyBridge_ok (h : denyBridge keyId nodeLabel peerLabel db = (.ok u, db')) :
    ∃ node ∈ db.nodes, ∃ peer ∈ db.nodes, IsRow keyId nodeLabel node ∧ IsRow keyId peerLabel peer
      ∧ db' = { db with
          bridges := db.bridges.filter fun bridge =>
            !((bridge.nodeId = node.id && bridge.peerLabel = peerLabel)
              || (bridge.nodeId = peer.id && bridge.peerLabel = nodeLabel))
          links := db.links.filter fun link => !decide (orderedPair node.id peer.id = .ok link) } := by
  obtain ⟨nodeId, hnodeId, h⟩ := Op.lift_bind_ok (Op.read_bind_ok h)
  obtain ⟨peerId, hpeerId, h⟩ := Op.lift_bind_ok h
  obtain ⟨node, hnode, hnodeRow, rfl⟩ := nodeIdForLabel_ok hnodeId
  obtain ⟨peer, hpeer, hpeerRow, rfl⟩ := nodeIdForLabel_ok hpeerId
  refine ⟨node, hnode, peer, hpeer, hnodeRow, hpeerRow, ?_⟩
  obtain ⟨_, mid, hbridges, h⟩ := Op.bind_ok h
  obtain rfl := Op.modify_ok hbridges
  cases hpair : orderedPair node.id peer.id with
  | error e =>
    rw [hpair] at h
    obtain ⟨-, rfl⟩ := Op.pure_ok h
    simp
  | ok pair =>
    rw [hpair] at h
    rw [Op.modify_ok h]
    congr 1
    exact filter_congr fun link _ => by simp [eq_comm]

theorem denyBridge_atomic : Op.Atomic (denyBridge keyId nodeLabel peerLabel) := by
  refine .read_bind fun _ => .lift_bind fun nodeId => .lift_bind fun peerId => ?_
  intro db e herror
  cases hpair : orderedPair nodeId peerId with
  | ok pair =>
    rw [hpair] at herror
    cases herror
  | error _ =>
    rw [hpair] at herror
    cases herror

theorem orderedPair_lt (h : a < b) : orderedPair a b = .ok ⟨a, b⟩ ∧ orderedPair b a = .ok ⟨a, b⟩ := by
  unfold orderedPair
  rw [if_neg (Nat.ne_of_lt h), if_pos h, if_neg (Nat.ne_of_gt h), if_neg (Nat.lt_asymm h)]
  exact ⟨rfl, rfl⟩

end

variable {nodeLabel peerLabel fromLabel toLabel : String}

theorem denyBridge_keepsOrder :
    Op.Moves KeepsOrder (denyBridge keyId nodeLabel peerLabel) := by
  refine .of_atomic denyBridge_atomic fun db u db' hok h => ?_
  obtain ⟨node, hnode, peer, hpeer, hnodeRow, hpeerRow, rfl⟩ := denyBridge_ok hok
  refine h.rewire ((h.sound.filterBridges _).filterLinks _) rfl rfl fun key hkey => ?_
  refine (h.trees key hkey).wired.sub h.sound rfl (filter_subset_self _)
    (filter_subset_self _) fun a ha b hb haKey hbKey hlink => ?_
  obtain ⟨hlink, hkept⟩ := mem_filter.mp hlink
  have hlt : a.id < b.id := (h.sound.linkNodes _ hlink).1
  -- a row with the id of the one end and a row with the label of the other are the two ends
  have hends : ∀ {x y : NodeRow}, x ∈ db.nodes → y ∈ db.nodes → x.keyId = key.id →
      y.keyId = key.id → ((x.id = node.id ∧ y.label = peerLabel)
        ∨ (x.id = peer.id ∧ y.label = nodeLabel)) →
      (x = node ∧ y = peer) ∨ (x = peer ∧ y = node) := by
    intro x y hx hy hxKey hyKey hor
    rcases hor with ⟨hid, hlabel⟩ | ⟨hid, hlabel⟩
    · obtain rfl := h.sound.row_unique hx hnode hid
      refine .inl ⟨rfl, h.sound.isRow_unique hy hpeer ⟨?_, hlabel⟩ hpeerRow⟩
      exact hyKey.trans (hxKey.symm.trans hnodeRow.1)
    · obtain rfl := h.sound.row_unique hx hpeer hid
      refine .inr ⟨rfl, h.sound.isRow_unique hy hnode ⟨?_, hlabel⟩ hnodeRow⟩
      exact hyKey.trans (hxKey.symm.trans hpeerRow.1)
  have hnot : ¬ ((a = node ∧ b = peer) ∨ (a = peer ∧ b = node)) := by
    obtain ⟨hforth, hback⟩ := orderedPair_lt hlt
    rintro (⟨rfl, rfl⟩ | ⟨rfl, rfl⟩)
    · rw [hforth] at hkept
      simp at hkept
    · rw [hback] at hkept
      simp at hkept
  simp only [mem_filter, Bool.not_eq_true', Bool.or_eq_false_iff, Bool.and_eq_false_iff,
    decide_eq_false_iff_not]
  constructor
  · refine fun hbridge => ⟨hbridge, ?_⟩
    by_contra hgone
    exact hnot (hends ha hb haKey hbKey (by tauto))
  · refine fun hbridge => ⟨hbridge, ?_⟩
    by_contra hgone
    exact hnot ((hends hb ha hbKey haKey (by tauto)).symm.imp .symm .symm)

theorem removeBridge_keepsOrder :
    Op.Moves KeepsOrder (removeBridge keyId fromLabel toLabel) :=
  .read_bind fun _ => .lift_bind fun _ => .lift_bind fun _ => .lift_bind fun _ =>
    .bind (deleteLinks_keepsOrder _) fun _ _ h => h

theorem deleteNodeBindings_keepsOrder (keyId nodeId : Nat) :
    Op.Moves KeepsOrder (deleteNodeBindings keyId nodeId) := by
  intro db h
  unfold deleteNodeBindings
  rw [Op.read_bind]
  cases hfind : db.nodes.find? fun row => row.id = nodeId && row.keyId = keyId with
  | none => exact h
  | some node =>
    obtain ⟨hnode, hid, hkeyId⟩ := @rowIn_some db keyId nodeId node hfind
    refine h.rewire ((h.sound.filterLinks _).filterBridges _) rfl rfl fun key hkey => ?_
    refine (h.trees key hkey).wired.sub h.sound rfl (filter_subset_self _)
      (filter_subset_self _) fun a ha b hb haKey hbKey hlink => ?_
    obtain ⟨-, hkept⟩ := mem_filter.mp hlink
    simp only [Bool.not_eq_true', Bool.or_eq_false_iff, decide_eq_false_iff_not] at hkept
    -- the other end of a kept link is not the node either
    have hstays : ∀ {x y : NodeRow}, x ∈ db.nodes → y ∈ db.nodes → x.keyId = key.id →
        y.keyId = key.id → x.id ≠ nodeId → y.id ≠ nodeId →
        (!(decide (x.id = nodeId) || (decide (y.label = node.label)
          && db.nodes.any fun row => row.keyId = keyId && row.id = x.id))) := by
      intro x y hx hy hxKey hyKey hxNe hyNe
      simp only [Bool.not_eq_true', Bool.or_eq_false_iff, Bool.and_eq_false_iff, decide_eq_false_iff_not]
      refine ⟨hxNe, ?_⟩
      by_contra hboth
      rw [not_or, not_not, Bool.not_eq_false, any_eq_true] at hboth
      obtain ⟨hlabel, row, hrow, hin⟩ := hboth
      simp only [Bool.and_eq_true, decide_eq_true_eq] at hin
      obtain rfl := h.sound.row_unique hrow hx hin.2
      refine hyNe ?_
      rw [h.sound.nodeLabels y hy node hnode ?_ hlabel]
      · exact hid
      · exact hyKey.trans (hxKey.symm.trans (hin.1.trans hkeyId.symm))
    exact ⟨fun hbridge => mem_filter.mpr ⟨hbridge, hstays ha hb haKey hbKey hkept.1 hkept.2⟩,
      fun hbridge => mem_filter.mpr ⟨hbridge, hstays hb ha hbKey haKey hkept.2 hkept.1⟩⟩

/-! ## §3. Entries and links put in. -/

theorem allowBridge_keepsOrder :
    Op.Moves KeepsOrder (allowBridge keyId nodeLabel peerLabel) := by
  refine .of_atomic (.require_bind (.read_bind fun _ => .lift_bind fun _ => .lift_bind fun _ =>
    .read_bind fun _ => .require_bind (.modify _))) fun db u db' hok h => ?_
  obtain ⟨hne, node, hnode, peer, hpeer, hnodeRow, hpeerRow, rfl⟩ := allowBridge_ok hok
  have hframe := @withBridge_eq db ⟨node.id, peerLabel⟩
  have hnodes : (db.withBridge ⟨node.id, peerLabel⟩).nodes = db.nodes := by rw [hframe]
  have hlinks : (db.withBridge ⟨node.id, peerLabel⟩).links = db.links := by rw [hframe]
  refine h.rewire (h.sound.withBridge (mem_map_of_mem hnode)) (by rw [hframe]) hnodes
    fun key hkey => ⟨?_, ?_⟩
  · rintro a b ⟨row, hrow, hisRow, hbridge⟩
    rw [hnodes] at hrow ⊢
    rcases mem_withBridge.mp hbridge with hbridge | heq
    · exact (h.trees key hkey).wired.allowed a b ⟨row, hrow, hisRow, hbridge⟩
    · obtain ⟨hid, rfl⟩ := BridgeRow.mk.inj heq
      obtain rfl := h.sound.row_unique hrow hnode hid
      refine ⟨?_, peer, hpeer, ?_, hpeerRow.2⟩
      · rw [← hisRow.2, hnodeRow.2]
        exact hne
      · exact hpeerRow.1.trans (hnodeRow.1.symm.trans hisRow.1)
  · intro a b hpairs
    unfold Pairs at hpairs
    rw [hnodes, hlinks] at hpairs
    have hmono : ∀ {x y}, db.Allows key.id x y → (db.withBridge ⟨node.id, peerLabel⟩).Allows key.id x y :=
      .mono (fun _ hrow => hnodes.symm ▸ hrow) fun _ hbridge => mem_withBridge.mpr (.inl hbridge)
    exact ((h.trees key hkey).wired.paired a b hpairs).imp hmono hmono

theorem addBridge_keepsOrder :
    Op.Moves KeepsOrder (addBridge keyId fromLabel toLabel) := by
  refine .of_atomic addBridge_atomic fun db u db' hok h => ?_
  obtain ⟨nodeA, hnodeA, nodeB, hnodeB, hisNodeA, hisNodeB, hlisted, link, hjoins, rfl⟩ :=
    addBridge_ok hok
  have hframe := @withLink_eq db link
  have hnodes : (db.withLink link).nodes = db.nodes := by rw [hframe]
  have hbridges : (db.withLink link).bridges = db.bridges := by rw [hframe]
  have hallows : ∀ key a b, (db.withLink link).Allows key a b ↔ db.Allows key a b := by
    intro key a b
    unfold Allows
    rw [hnodes, hbridges]
  have hsound : (db.withLink link).Sound := by
    refine h.sound.withLink hjoins.1 ?_ ?_ <;> rcases hjoins.2 with rfl | rfl <;>
      first | exact mem_map_of_mem hnodeA | exact mem_map_of_mem hnodeB
  refine h.rewire hsound (by rw [hframe]) hnodes fun key hkey => ⟨?_, ?_⟩
  · intro a b hab
    rw [hnodes]
    exact (h.trees key hkey).wired.allowed a b ((hallows key.id a b).mp hab)
  · rintro a b ⟨rowA, hrowA, rowB, hrowB, hisA, hisB, hlink⟩
    rw [hnodes] at hrowA hrowB
    rw [hallows, hallows]
    rcases mem_withLink.mp hlink with hlink | heq
    · exact (h.trees key hkey).wired.paired a b ⟨rowA, hrowA, rowB, hrowB, hisA, hisB, hlink⟩
    · -- the new link: its ends are the two nodes, one of which lists the other
      rcases h.sound.joins_cases hrowA hrowB hnodeA hnodeB (.inl heq.symm) hjoins with
        ⟨rfl, rfl⟩ | ⟨rfl, rfl⟩
      · rw [← hisNodeA.2, ← hisNodeB.2, hisA.2, hisB.2] at hlisted
        exact hlisted.imp (fun hbridge => ⟨_, hrowA, hisA, hbridge⟩)
          fun hbridge => ⟨_, hrowB, hisB, hbridge⟩
      · rw [← hisNodeA.2, ← hisNodeB.2, hisA.2, hisB.2] at hlisted
        exact (hlisted.imp (fun hbridge => ⟨_, hrowB, hisB, hbridge⟩)
          fun hbridge => ⟨_, hrowA, hisA, hbridge⟩).symm

theorem bindPair_keepsOrder : Op.Moves KeepsOrder (bindPair keyId aLabel bLabel) :=
  .bind allowBridge_keepsOrder fun _ => .bind allowBridge_keepsOrder fun _ => addBridge_keepsOrder

/-! ## §4. Leaves taken out and put in. -/

section Leaves

variable [Sharks] [SealedBoxes] {rng : String → Nat}

theorem evictAndRefresh_keepsOrder :
    Op.Moves KeepsOrder
      (evictAndRefresh rounds rng onLeafRemoved keyId evictedNodeId survivorRawShares) := by
  have hinactive : Op.Moves KeepsRows
      (updateNode evictedNodeId fun row => { row with isActive := false }) :=
    updateNode_keepsRows evictedNodeId fun _ => ⟨rfl, rfl, rfl, rfl, rfl⟩
  refine .rollback ?_ fun db _ _ h => h
  refine .read_bind fun _ => .lift_bind fun _ => .lift_bind fun _ => .lift_bind fun _ =>
    .lift_bind fun _ => .lift_bind fun _ => .bind (fun db => (hinactive db).keepsOrder) fun _ =>
      .bind (deleteNodeBindings_keepsOrder _ _) fun _ => .lift_bind fun _ => ?_
  exact fun db => (resealSurvivors_moves rng _ _ db).keepsOrder

omit [Crypto] [Sharks] [SealedBoxes] in
theorem Grown.graft {R S : Nat → Option Nat → String → Option Nat → Prop} (h : Grown R)
    {id parent : Nat} {label : String} (hlabel : label ≠ "")
    (hparent : ∃ above other threshold, R parent above other threshold)
    (hrows : ∀ i p l t, S i p l t ↔ R i p l t ∨ (i = id ∧ p = some parent ∧ l = label ∧ t = none)) :
    Grown S := by
  obtain ⟨root, ⟨rootLabel, rootThreshold, hroot⟩, hunique, hlines⟩ := h.rooted
  have hmono : ∀ {a b : Nat}, Relation.ReflTransGen (fun a b => ∃ l t, R a (some b) l t) a b →
      Relation.ReflTransGen (fun a b => ∃ l t, S a (some b) l t) a b := by
    intro a b hline
    refine .mono ?_ _ _ hline
    rintro x y ⟨l, t, hxy⟩
    exact ⟨l, t, (hrows _ _ _ _).mpr (.inl hxy)⟩
  refine ⟨fun {i p l t} hS => ?_, fun {i p l t} hS => ?_, root,
    ⟨rootLabel, rootThreshold, (hrows _ _ _ _).mpr (.inl hroot)⟩, fun i l t hS => ?_,
    fun i p l t hS => ?_⟩
  · rcases (hrows _ _ _ _).mp hS with hR | ⟨-, -, rfl, -⟩
    · exact h.labels_ne hR
    · exact hlabel
  · rcases (hrows _ _ _ _).mp hS with hR | ⟨-, -, -, hnone⟩
    · exact h.thresholds hR
    · cases hnone
  · rcases (hrows _ _ _ _).mp hS with hR | ⟨-, hnone, -, -⟩
    · exact hunique i l t hR
    · cases hnone
  · rcases (hrows _ _ _ _).mp hS with hR | ⟨rfl, rfl, -, -⟩
    · exact hmono (hlines i p l t hR)
    · obtain ⟨above, other, threshold, hR⟩ := hparent
      exact .head ⟨l, t, hS⟩ (hmono (hlines _ _ _ _ hR))

omit [Sharks] [SealedBoxes] in
theorem InOrder.insertLeaf (h : db.InOrder) {row parent : NodeRow} {id : Nat}
    (hok : insertNode row db = (.ok id, db')) (hlabel : row.label ≠ "")
    (hthreshold : row.threshold = none)
    (hnew : ∀ other ∈ db.nodes, ¬ IsRow row.keyId row.label other) (hparent : parent ∈ db.nodes)
    (hparentKey : parent.keyId = row.keyId) (hparentId : row.parentId = some parent.id) :
    db'.InOrder := by
  have hsound : db'.Sound := by
    refine h.sound.insertNode hok (fun other hother hkey heq => hnew other hother ⟨hkey, heq⟩) ?_
    intro q hq
    exact ⟨parent, hparent, Option.mem_unique hparentId hq, hparentKey⟩
  obtain ⟨-, rfl, rfl⟩ := insertNode_ok.mp hok
  have hfresh : ∀ {id}, id ∈ db.nodes.map NodeRow.id → id ≠ db.freshNode :=
    fun hid heq => freshId_not_mem _ (heq ▸ hid)
  refine ⟨hsound, fun key hkey => ?_⟩
  by_cases htree : row.keyId = key.id
  swap
  · refine (h.trees key hkey).frame (shape_congr fun other hother => ?_) (fun _ _ => .rfl)
      fun _ _ hlink => hlink
    refine ⟨fun hin => (mem_snoc.mp hin).resolve_right ?_, mem_append_left _⟩
    rintro rfl
    exact htree hother
  obtain ⟨hkeyLabel, hgrown, hwired⟩ := h.trees key hkey
  refine ⟨hkeyLabel, ?_, ?_, ?_⟩
  · refine @Grown.graft _ _ hgrown db.freshNode _ _ hlabel
      ⟨_, _, _, shape_of_mem hparent (hparentKey.trans htree)⟩ fun i p l t => ?_
    simp only [shape, mem_snoc, or_and_right, exists_or, exists_eq_left, htree, hparentId, hthreshold,
      true_and, eq_comm]
  · rintro a b ⟨other, hother, hisRow, hbridge⟩
    rcases mem_snoc.mp hother with hother | rfl
    · obtain ⟨hne, peer, hpeer, hisPeer⟩ := hwired.allowed a b ⟨other, hother, hisRow, hbridge⟩
      exact ⟨hne, peer, mem_append_left _ hpeer, hisPeer⟩
    · exact absurd rfl (hfresh (h.sound.bridgeNodes _ hbridge))
  · rintro a b ⟨rowA, hrowA, rowB, hrowB, hisA, hisB, hlink⟩
    obtain ⟨-, hidA, hidB⟩ := h.sound.linkNodes _ hlink
    rcases mem_snoc.mp hrowA with hrowA | rfl
    · rcases mem_snoc.mp hrowB with hrowB | rfl
      · exact (hwired.paired a b ⟨rowA, hrowA, rowB, hrowB, hisA, hisB, hlink⟩).imp
          (.mono (subset_append_left _ _) fun _ h => h) (.mono (subset_append_left _ _) fun _ h => h)
      · exact absurd rfl (hfresh hidB)
    · exact absurd rfl (hfresh hidA)

omit [Crypto] in
theorem addLeafAndReshare_atomic (rng : String → Nat) (keyId : Nat) (parentLabel newLabel : String)
    (newHardwareId : Nat) (presented : Nat → Option Bytes) :
    Op.Atomic (addLeafAndReshare rng keyId parentLabel newLabel newHardwareId presented) :=
  .require_bind fun _ _ herror => Db.transaction_error (Op.run_eq herror)

theorem addLeafAndReshare_keepsOrder {parentLabel newLabel : String} {newHardwareId : Nat}
    {presented : Nat → Option Bytes} :
    Op.Moves KeepsOrder (addLeafAndReshare rng keyId parentLabel newLabel newHardwareId presented) := by
  refine .of_atomic (addLeafAndReshare_atomic _ _ _ _ _ _) fun db id db' hok h => ?_
  obtain ⟨hlabel, hnew, mid, wrapped, hkeeps, parent, hparent, hkey, hinsert⟩ :=
    addLeafAndReshare_ok hok
  -- the parent and the missing label, among the rows with their new seals
  have hshape := shape_of_mem hparent hkey
  rw [← hkeeps.shape] at hshape
  obtain ⟨parent', hparent', hkey', hid', -⟩ := hshape
  refine (hkeeps.keepsOrder h).insertLeaf hinsert hlabel rfl (fun other hother hisRow => ?_) hparent'
    hkey' (by rw [hid'])
  obtain ⟨row, hrow, hisRow⟩ : ∃ row ∈ db.nodes, IsRow keyId newLabel row := by
    rw [exists_isRow_iff, ← hkeeps.shape, ← exists_isRow_iff]
    exact ⟨other, hother, hisRow⟩
  exact hnew row hrow hisRow

end Leaves

end Order

end Store

end KeyQuorum
