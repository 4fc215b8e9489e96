/-
  **THE LOOP OVER A SNAPSHOT'S NODES** (`apply_public_tree_inner` in
  `key_tree.rs`).

  The loop writes parents first, over the rows that are there.  Its
  invariant says what has been written and that all else is as it was.
-/
import KeyQuorum.KeyTree.Apply

namespace KeyQuorum

open List Foundation

namespace Store

section Adopt

variable [Crypto]

/-! ## §1. Rows as a snapshot shows them. -/

def labelOf (db : Store) (id : Nat) : Option String :=
  (db.nodes.find? fun row => row.id = id).map NodeRow.label

def parentLabelOf (db : Store) (row : NodeRow) : Option String := row.parentId.bind db.labelOf

/-- The sealed share a node of the snapshot finds in the store: that of its label, if the key is
the same. -/
def keptShare (db : Store) (keyId : Nat) (node : PublicNode) : Option Bytes :=
  match db.nodes.find? fun row => row.keyId = keyId && row.label = node.label with
  | some old =>
    if db.keyBytes old.hardwareKeyId = PublicTree.nodeKeyBytes node then old.wrappedShare else none
  | none => none

structure Shows (db : Store) (node : PublicNode) (row : NodeRow) : Prop where
  label_eq : row.label = node.label
  parent_eq : db.parentLabelOf row = node.parentLabel
  threshold_eq : row.threshold = node.threshold.map UInt8.toNat
  isActive_eq : row.isActive = node.isActive
  key_eq : db.keyBytes row.hardwareKeyId = PublicTree.nodeKeyBytes node

variable {db₀ db mid db' : Store} {keyId : Nat} {node : PublicNode} {row old : NodeRow}
  {snapshot : PublicTree} {done pending : List PublicNode} {rounds : Nat}

theorem Sound.labelOf_of_mem (h : db.Sound) (hrow : row ∈ db.nodes) :
    db.labelOf row.id = some row.label := by
  unfold labelOf
  rw [find?_of_unique hrow (by simp) fun other hother hid => h.row_unique hother hrow (by simpa using hid)]
  rfl

theorem Sound.parentLabelOf_some (h : db.Sound) (hparent : parent ∈ db.nodes)
    (hid : row.parentId = some parent.id) : db.parentLabelOf row = some parent.label := by
  unfold parentLabelOf
  rw [hid]
  exact h.labelOf_of_mem hparent

theorem Sound.parentLabelOf_none (h : db.Sound) (hrow : row ∈ db.nodes) :
    db.parentLabelOf row = none ↔ row.parentId = none := by
  constructor
  · intro hnone
    by_contra hsome
    obtain ⟨id, hid⟩ := Option.ne_none_iff_exists'.mp hsome
    obtain ⟨parent, hparent, rfl, -⟩ := h.nodeParents row hrow id hid
    rw [h.parentLabelOf_some hparent hid] at hnone
    cases hnone
  · intro hnone
    unfold parentLabelOf
    rw [hnone]
    rfl

def KeepsNodes (db db' : Store) : Prop :=
  ∀ row ∈ db.nodes, ∃ row' ∈ db'.nodes, row'.id = row.id ∧ row'.keyId = row.keyId
    ∧ row'.label = row.label

omit [Crypto] in
theorem KeepsNodes.trans (hfirst : KeepsNodes db mid) (hsecond : KeepsNodes mid db') :
    KeepsNodes db db' := by
  intro row hrow
  obtain ⟨row₁, hrow₁, hid₁, hkey₁, hlabel₁⟩ := hfirst row hrow
  obtain ⟨row₂, hrow₂, hid₂, hkey₂, hlabel₂⟩ := hsecond row₁ hrow₁
  exact ⟨row₂, hrow₂, hid₂.trans hid₁, hkey₂.trans hkey₁, hlabel₂.trans hlabel₁⟩

omit [Crypto] in
theorem KeepsNodes.label (h : KeepsNodes db db') (row : NodeRow) (hrow : row ∈ db.nodes) :
    ∃ row' ∈ db'.nodes, row'.id = row.id ∧ row'.label = row.label := by
  obtain ⟨row', hrow', hid, -, hlabel⟩ := h row hrow
  exact ⟨row', hrow', hid, hlabel⟩

theorem Shows.mono (h : db.Sound) (h' : db'.Sound) (hrow : row ∈ db.nodes)
    (hparents : ∀ parent ∈ db.nodes, row.parentId = some parent.id →
      ∃ parent' ∈ db'.nodes, parent'.id = parent.id ∧ parent'.label = parent.label)
    (hkeys : db.hardwareKeys ⊆ db'.hardwareKeys) (hshows : Shows db node row) :
    Shows db' node row := by
  refine { hshows with parent_eq := ?_, key_eq := ?_ }
  · rw [← hshows.parent_eq]
    cases hparent : row.parentId with
    | none =>
      unfold parentLabelOf
      rw [hparent]
      rfl
    | some id =>
      obtain ⟨parent, hmem, rfl, -⟩ := h.nodeParents row hrow id hparent
      obtain ⟨parent', hmem', hid', hlabel'⟩ := hparents parent hmem hparent
      rw [h.parentLabelOf_some hmem hparent, h'.parentLabelOf_some hmem' (hid' ▸ hparent), hlabel']
  · rw [← hshows.key_eq]
    cases hkey : row.hardwareKeyId with
    | none => rfl
    | some id =>
      obtain ⟨key, hmem, rfl, -⟩ := h.nodeHardware row hrow id hkey
      rw [h.keyBytes_of_mem hmem, h'.keyBytes_of_mem (hkeys hmem)]

theorem Shows.parentId_none (h : db.Sound) (hrow : row ∈ db.nodes)
    (hshows : Shows db node row) (hroot : node.parentLabel = none) : row.parentId = none :=
  (h.parentLabelOf_none hrow).mp (hshows.parent_eq.trans hroot)

/-! ## §2. One node. -/

theorem keptShare_of_mem (h : db.Sound) (hold : old ∈ db.nodes) (hisRow : IsRow keyId node.label old) :
    db.keptShare keyId node = if db.keyBytes old.hardwareKeyId = PublicTree.nodeKeyBytes node
      then old.wrappedShare else none := by
  unfold keptShare
  rw [h.find_row hold hisRow]

omit [Crypto] in
theorem keptShare_of_none (hnone : ∀ row ∈ db.nodes, ¬ IsRow keyId node.label row) :
    db.keptShare keyId node = none := by
  unfold keptShare
  rw [find_row_none.mpr hnone]

/-- The key of an old row is that of the snapshot exactly if its id is the one found for it. -/
theorem sameKey_iff (h : db₀.Sound) (h' : db'.Sound) (hkeys : db₀.hardwareKeys ⊆ db'.hardwareKeys)
    (hold : old ∈ db₀.nodes)
    (hkey : ∀ id, hardwareKeyId = some id → ∃ key ∈ db'.hardwareKeys, key.id = id
      ∧ key.keyType = .encryption) :
    old.hardwareKeyId = hardwareKeyId ↔ db₀.keyBytes old.hardwareKeyId = db'.keyBytes hardwareKeyId := by
  cases hid : old.hardwareKeyId with
  | none =>
    cases hfound : hardwareKeyId with
    | none => exact iff_of_true rfl rfl
    | some id =>
      obtain ⟨key, hmem, rfl, -⟩ := hkey id hfound
      rw [h'.keyBytes_of_mem hmem]
      exact iff_of_false (by simp) (by simp [keyBytes])
  | some oldId =>
    obtain ⟨oldKey, holdMem, rfl, -⟩ := h.nodeHardware old hold oldId hid
    rw [h.keyBytes_of_mem holdMem]
    cases hfound : hardwareKeyId with
    | none => exact iff_of_false (by simp) (by simp [keyBytes])
    | some id =>
      obtain ⟨key, hmem, rfl, -⟩ := hkey id hfound
      rw [h'.keyBytes_of_mem hmem, Option.some.injEq, Option.some.injEq]
      constructor
      · intro heq
        rw [h'.key_unique (hkeys holdMem) hmem heq]
      · intro heq
        rw [h'.key_of_publicKey (hkeys holdMem) hmem heq]

/-- The nodes `done` have been written, all else is as before. -/
structure Applied (db₀ db : Store) (keyId : Nat) (done : List PublicNode) : Prop where
  sound : db.Sound
  frame : db = { db₀ with hardwareKeys := db.hardwareKeys, nodes := db.nodes }
  keysKept : db₀.hardwareKeys ⊆ db.hardwareKeys
  keysNew : ∀ key ∈ db.hardwareKeys, key ∈ db₀.hardwareKeys
    ∨ key.keyType = .encryption ∧ ∃ node ∈ done, PublicTree.nodeKeyBytes node = some key.publicKey
  nodesKept : KeepsNodes db₀ db
  rest : ∀ row, ¬ (row.keyId = keyId ∧ row.label ∈ done.map PublicNode.label) →
    (row ∈ db.nodes ↔ row ∈ db₀.nodes)
  rows : ∀ node ∈ done, ∃ row ∈ db.nodes, row.keyId = keyId ∧ Shows db node row
    ∧ row.wrappedShare = db₀.keptShare keyId node
  unsealed : ∀ node ∈ done, node.threshold ≠ none → ∀ old ∈ db₀.nodes,
    IsRow keyId node.label old → old.wrappedShare = none

theorem Applied.init (h : db₀.Sound) : Applied db₀ db₀ keyId [] where
  sound := h
  frame := rfl
  keysKept := List.Subset.refl _
  keysNew := fun _ h => .inl h
  nodesKept := fun row hrow => ⟨row, hrow, rfl, rfl, rfl⟩
  rest := fun _ _ => Iff.rfl
  rows := nofun
  unsealed := nofun

omit [Crypto] in
theorem parentIdOf_ok (h : db.parentIdOf keyId node = .ok parentId) :
    (node.parentLabel = none ∧ parentId = none)
      ∨ ∃ parent ∈ db.nodes, parent.keyId = keyId ∧ node.parentLabel = some parent.label
        ∧ parentId = some parent.id := by
  unfold parentIdOf at h
  cases hparent : node.parentLabel with
  | none =>
    rw [hparent] at h
    exact .inl ⟨rfl, (Except.ok.inj h).symm⟩
  | some label =>
    rw [hparent] at h
    dsimp only at h
    cases hid : db.nodeIdForLabel keyId label with
    | error e =>
      rw [hid] at h
      cases h
    | ok id =>
      rw [hid] at h
      obtain ⟨parent, hmem, ⟨hkey, rfl⟩, rfl⟩ := nodeIdForLabel_ok hid
      exact .inr ⟨parent, hmem, hkey, rfl, (Except.ok.inj h).symm⟩

/-- **Writing one more node.** -/
theorem Applied.step {done : List PublicNode} (h₀ : db₀.Sound) (h : Applied db₀ db keyId done)
    (hshape : PublicTree.WellShaped node) (hnew : node.label ∉ done.map PublicNode.label) {u : Unit}
    (hok : applyPublicNode keyId node db = (.ok u, db')) :
    Applied db₀ db' keyId (done ++ [node]) := by
  obtain ⟨parentId, hparentId, hok⟩ := Op.lift_bind_ok (Op.read_bind_ok hok)
  obtain ⟨hardwareKeyId, keyed, hkeyed, hok⟩ := Op.bind_ok hok
  obtain ⟨-, hok⟩ := Op.require_bind_ok hok
  have hkeyed := nodeKey_ok h.sound hshape hkeyed
  have hnodesEq : keyed.nodes = db.nodes := by rw [hkeyed.frame]
  have hparentCases := parentIdOf_ok hparentId
  obtain ⟨row, hwritten⟩ := writeNode_ok hkeyed.sound (fun parent hp => by
    rcases hparentCases with ⟨-, rfl⟩ | ⟨other, hmem, hkey, -, rfl⟩
    · cases hp
    · exact ⟨other, hnodesEq ▸ hmem, Option.some.inj hp, hkey⟩) hshape hkeyed.leaf hok
  have hkeysEq : db'.hardwareKeys = keyed.hardwareKeys := by rw [hwritten.frame]
  have hgrows : db.hardwareKeys ⊆ db'.hardwareKeys := hkeysEq ▸ hkeyed.grows
  -- the nodes of before are there, in place or updated
  have hkept : KeepsNodes db db' := by
    intro old hold
    by_cases hisRow : IsRow keyId node.label old
    · refine ⟨row, hwritten.mem, (hwritten.inPlace old (hnodesEq ▸ hold) hisRow).1, ?_, ?_⟩
      · exact hwritten.isRow.1.trans hisRow.1.symm
      · exact hwritten.isRow.2.trans hisRow.2.symm
    · exact ⟨old, (hwritten.rest old hisRow).mpr (hnodesEq ▸ hold), rfl, rfl, rfl⟩
  -- rows of this label are those of the start
  have hsameOld : ∀ old, IsRow keyId node.label old → (old ∈ db.nodes ↔ old ∈ db₀.nodes) := by
    intro old hisRow
    refine h.rest old fun hcond => hnew ?_
    rw [← hisRow.2]
    exact hcond.2
  have hkeyIn : ∀ id, hardwareKeyId = some id → ∃ key ∈ db'.hardwareKeys, key.id = id
      ∧ key.keyType = .encryption := by
    rw [hkeysEq]
    exact hkeyed.key
  have hbytes : db'.keyBytes hardwareKeyId = PublicTree.nodeKeyBytes node := by
    rw [← hkeyed.bytes]
    unfold keyBytes
    rw [hkeysEq]
  refine ⟨hwritten.sound, ?_, List.Subset.trans h.keysKept hgrows, ?_, h.nodesKept.trans hkept,
    ?_, ?_, ?_⟩
  · rw [hwritten.frame, hkeyed.frame, h.frame]
  · intro key hkey
    rcases hkeyed.added key (hkeysEq ▸ hkey) with hold | ⟨htype, hbytes⟩
    · refine (h.keysNew key hold).imp_right fun ⟨htype, other, hother, hbytes⟩ => ?_
      exact ⟨htype, other, mem_append_left _ hother, hbytes⟩
    · exact .inr ⟨htype, node, mem_concat_self, hbytes⟩
  · intro other hother
    rw [map_append, mem_append, not_and_or, not_or] at hother
    have hnotRow : ¬ IsRow keyId node.label other := by
      rintro ⟨hkey, hlabel⟩
      rcases hother with hother | ⟨-, hother⟩
      · exact hother hkey
      · exact hother (by simp [hlabel])
    rw [hwritten.rest other hnotRow, hnodesEq]
    refine h.rest other fun hcond => ?_
    rcases hother with hother | ⟨hother, -⟩
    · exact hother hcond.1
    · exact hother hcond.2
  · intro other hother
    rcases mem_snoc.mp hother with hother | rfl
    · obtain ⟨otherRow, hmem, hkey, hshows, hshare⟩ := h.rows other hother
      have hnotRow : ¬ IsRow keyId node.label otherRow := fun hisRow =>
        hnew (by rw [← hisRow.2, hshows.label_eq]; exact mem_map_of_mem hother)
      exact ⟨otherRow, (hwritten.rest otherRow hnotRow).mpr (hnodesEq ▸ hmem), hkey,
        hshows.mono h.sound hwritten.sound hmem (fun parent hparent _ => hkept.label parent hparent)
          hgrows, hshare⟩
    · refine ⟨row, hwritten.mem, hwritten.isRow.1, ⟨hwritten.isRow.2, ?_, hwritten.threshold_eq,
        hwritten.isActive_eq, by rw [hwritten.hardwareKeyId_eq, hbytes]⟩, ?_⟩
      · rcases hparentCases with ⟨hlabel, hnone⟩ | ⟨parent, hmem, -, hlabel, hsome⟩
        · unfold parentLabelOf
          rw [hwritten.parentId_eq, hnone, hlabel]
          rfl
        · obtain ⟨parent', hmem', hid', -, hlabel'⟩ := hkept parent hmem
          rw [hlabel, ← hlabel']
          refine hwritten.sound.parentLabelOf_some hmem' ?_
          rw [hwritten.parentId_eq, hsome, hid']
      · by_cases hexists : ∃ old ∈ db₀.nodes, IsRow keyId other.label old
        · obtain ⟨old, hold, hisRow⟩ := hexists
          have hold' : old ∈ keyed.nodes := hnodesEq ▸ (hsameOld old hisRow).mpr hold
          rw [(hwritten.inPlace old hold' hisRow).2.1, keptShare_of_mem h₀ hold hisRow]
          refine if_congr ?_ rfl rfl
          rw [sameKey_iff h₀ hwritten.sound (List.Subset.trans h.keysKept hgrows) hold hkeyIn, hbytes]
        · have hnone : ∀ old ∈ db₀.nodes, ¬ IsRow keyId other.label old := fun old hold hisRow =>
            hexists ⟨old, hold, hisRow⟩
          rw [keptShare_of_none hnone]
          refine hwritten.new fun old hold hisRow => ?_
          rw [hnodesEq] at hold
          exact hnone old ((hsameOld old hisRow).mp hold) hisRow
  · intro other hother hsplit old hold hisRow
    rcases mem_snoc.mp hother with hother | rfl
    · exact h.unsealed other hother hsplit old hold hisRow
    · have hold' : old ∈ keyed.nodes := hnodesEq ▸ (hsameOld old hisRow).mpr hold
      exact (hwritten.inPlace old hold' hisRow).2.2 hsplit

theorem UsableKeys.applied (hkeys : UsableKeys db₀ snapshot) (h : Applied db₀ db keyId done)
    (hdone : ∀ node ∈ done, node ∈ snapshot.nodes) : UsableKeys db snapshot where
  fingerprints := hkeys.fingerprints
  encryption key hkey other hother hbytes := by
    rcases h.keysNew key hkey with hold | ⟨htype, -⟩
    · exact hkeys.encryption key hold other hother hbytes
    · exact htype
  distinct other hother raw hraw key hkey hfp := by
    rcases h.keysNew key hkey with hold | ⟨-, node, hnode, hbytes⟩
    · exact hkeys.distinct other hother raw hraw key hold hfp
    · rw [(h.sound.registered key hkey).2] at hfp
      exact hkeys.apart node (hdone node hnode) other hother key.publicKey hbytes raw hraw hfp
  apart := hkeys.apart

/-- No sealed share is kept under a label that the snapshot makes a split. -/
def Unsealed (db : Store) (keyId : Nat) (snapshot : PublicTree) : Prop :=
  ∀ node ∈ snapshot.nodes, node.threshold ≠ none → ∀ old ∈ db.nodes, IsRow keyId node.label old →
    old.wrappedShare = none

instance (db : Store) (keyId : Nat) (snapshot : PublicTree) : Decidable (db.Unsealed keyId snapshot) :=
  inferInstanceAs (Decidable (∀ node ∈ snapshot.nodes, _))

theorem applyPublicNode_run (h : Applied db₀ db keyId done) (hvalid : snapshot.Valid)
    (hkeyId : keyId ∈ db₀.keys.map KeyRow.id) (hkeys : UsableKeys db₀ snapshot)
    (hunsealed : db₀.Unsealed keyId snapshot) (hdone : ∀ other ∈ done, other ∈ snapshot.nodes)
    (hnode : node ∈ snapshot.nodes) (hnew : node.label ∉ done.map PublicNode.label)
    (hparent : ∀ parent, node.parentLabel = some parent → parent ∈ done.map PublicNode.label) :
    ∃ db', applyPublicNode keyId node db = (.ok (), db') := by
  have hshape := hvalid.shaped node hnode
  obtain ⟨parentId, hparentId⟩ : ∃ parentId, db.parentIdOf keyId node = .ok parentId := by
    unfold parentIdOf
    cases hlabel : node.parentLabel with
    | none => exact ⟨none, rfl⟩
    | some label =>
      obtain ⟨other, hother, rfl⟩ := mem_map.mp (hparent label hlabel)
      obtain ⟨row, hrow, hkey, hshows, -⟩ := h.rows other hother
      dsimp only
      rw [h.sound.nodeIdForLabel hrow ⟨hkey, hshows.label_eq⟩]
      exact ⟨_, rfl⟩
  obtain ⟨hardwareKeyId, keyed, hkeyed⟩ := nodeKey_run h.sound (hkeys.applied h hdone) hnode hshape
  have hfound := nodeKey_ok h.sound hshape hkeyed
  have hnodesEq : keyed.nodes = db.nodes := by rw [hfound.frame]
  have hkeyRows : keyed.keys = db₀.keys := by rw [hfound.frame, h.frame]
  unfold applyPublicNode
  rw [Op.read_bind, Op.lift_bind hparentId, Op.bind_of_ok hkeyed, Op.require_bind (by
    rw [← hfound.leaf]
    cases hardwareKeyId <;> rfl)]
  refine writeNode_run hfound.sound (fun parent hp => ?_) hshape hfound.leaf (hkeyRows ▸ hkeyId)
    hfound.key fun hsplit old hold hisRow => ?_
  · rcases parentIdOf_ok hparentId with ⟨-, rfl⟩ | ⟨other, hmem, hkey, -, rfl⟩
    · cases hp
    · exact ⟨other, hnodesEq ▸ hmem, Option.some.inj hp, hkey⟩
  · refine hunsealed node hnode hsplit old ((h.rest old fun hcond => hnew ?_).mp (hnodesEq ▸ hold)) hisRow
    rw [← hisRow.2]
    exact hcond.2

/-! ## §3. The loop. -/

omit [Crypto] in
theorem label_not_done (h : ((done ++ node :: rest).map PublicNode.label).Nodup) :
    node.label ∉ done.map PublicNode.label := by
  rw [map_append, map_cons] at h
  exact fun hin => disjoint_of_nodup_append h hin (.head _)

/-- A round splits the pending nodes into those written and those that wait for a parent. -/
theorem applyRound_ok (h₀ : db₀.Sound) :
    ∀ {done next next' : List PublicNode} {ready' : List String} {db : Store},
      Applied db₀ db keyId done → (∀ node ∈ pending, PublicTree.WellShaped node) →
      ((done ++ pending).map PublicNode.label).Nodup →
      applyRound keyId remaining pending (done.map PublicNode.label) next db
        = (.ok (next', ready'), db') →
      ∃ written waiting, Applied db₀ db' keyId (done ++ written)
        ∧ ready' = (done ++ written).map PublicNode.label ∧ next' = next ++ waiting
        ∧ (written ++ waiting).Perm pending
        ∧ ∀ node ∈ waiting, ∃ parent, node.parentLabel = some parent
          ∧ parent ∉ done.map PublicNode.label := by
  induction pending with
  | nil =>
    intro done next next' ready' db h _ _ hok
    obtain ⟨heq, rfl⟩ := Op.pure_ok hok
    cases heq
    exact ⟨[], [], by simpa using h, by simp, by simp, .refl _, by simp⟩
  | cons node rest ih =>
    intro done next next' ready' db h hshape hnodup hok
    have hshapeRest : ∀ other ∈ rest, PublicTree.WellShaped other := fun other hother =>
      hshape other (.tail _ hother)
    rw [applyRound] at hok
    split at hok
    next hwaits =>
      have hnodupRest : ((done ++ rest).map PublicNode.label).Nodup :=
        hnodup.sublist ((sublist_cons_self node rest).append_left done |>.map _)
      obtain ⟨written, waiting, happlied, hready, hnext, hperm, hparents⟩ :=
        ih h hshapeRest hnodupRest hok
      refine ⟨written, node :: waiting, happlied, hready, by rw [hnext]; simp,
        (perm_middle).trans (hperm.cons node), fun other hother => ?_⟩
      rcases mem_cons.mp hother with rfl | hother
      · obtain ⟨parent, hparent, hcond⟩ := Option.any_eq_true _ _ |>.mp hwaits
        rw [Bool.and_eq_true, Bool.not_eq_true', contains_eq_mem] at hcond
        exact ⟨parent, hparent, by simpa using hcond.2⟩
      · exact hparents other hother
    next =>
      obtain ⟨u, mid, hnode, hok⟩ := Op.bind_ok hok
      have hstep := h.step h₀ (hshape node (.head _)) (label_not_done hnodup) hnode
      have hsplit : done ++ node :: rest = (done ++ [node]) ++ rest := by simp
      rw [show done.map PublicNode.label ++ [node.label] = (done ++ [node]).map PublicNode.label by
        simp] at hok
      obtain ⟨written, waiting, happlied, hready, hnext, hperm, hparents⟩ :=
        ih hstep hshapeRest (hsplit ▸ hnodup) hok
      refine ⟨node :: written, waiting, ?_, ?_, hnext, hperm.cons node, fun other hother => ?_⟩
      · simpa using happlied
      · simpa using hready
      · obtain ⟨parent, hparent, hnot⟩ := hparents other hother
        exact ⟨parent, hparent, fun hin => hnot (by simp [hin])⟩

/-- **What the loop leaves.** -/
theorem applyPending_ok (h₀ : db₀.Sound) :
    ∀ {pending done : List PublicNode} {db : Store} {u : Unit},
      Applied db₀ db keyId done → (∀ node ∈ pending, PublicTree.WellShaped node) →
      ((done ++ pending).map PublicNode.label).Nodup →
      applyPending keyId remaining rounds pending (done.map PublicNode.label) db = (.ok u, db') →
      ∃ written, Applied db₀ db' keyId (done ++ written) ∧ written.Perm pending := by
  induction rounds with
  | zero =>
    intro pending done db u h _ _ hok
    cases pending with
    | nil =>
      obtain ⟨-, rfl⟩ := Op.pure_ok hok
      exact ⟨[], by simpa using h, .refl _⟩
    | cons node rest => cases hok
  | succ rounds ih =>
    intro pending done db u h hshape hnodup hok
    cases pending with
    | nil =>
      obtain ⟨-, rfl⟩ := Op.pure_ok hok
      exact ⟨[], by simpa using h, .refl _⟩
    | cons node rest =>
      obtain ⟨⟨next, ready⟩, mid, hround, hok⟩ := Op.bind_ok hok
      obtain ⟨written, waiting, happlied, rfl, hnext, hperm, -⟩ :=
        applyRound_ok h₀ h hshape hnodup hround
      dsimp only at hok
      rw [hnext] at hok
      split at hok
      next => cases hok
      next =>
        have hpermAll : ((done ++ written) ++ waiting).Perm (done ++ node :: rest) := by
          rw [append_assoc]
          exact hperm.append_left done
        obtain ⟨more, happlied', hmore⟩ := ih happlied
          (fun other hother => hshape other (hperm.subset (mem_append_right _ hother)))
          ((hpermAll.map PublicNode.label).nodup_iff.mpr hnodup) hok
        refine ⟨written ++ more, by rwa [← append_assoc], ?_⟩
        exact (hmore.append_left written).trans hperm

omit [Crypto] in
theorem exists_ready (hvalid : snapshot.Valid) (hperm : (done ++ pending).Perm snapshot.nodes)
    (hpending : pending ≠ []) :
    ∃ node ∈ pending, ∀ parent, node.parentLabel = some parent → parent ∈ done.map PublicNode.label := by
  obtain ⟨root, hrootMem, hrootNone, -⟩ := hvalid.exists_root
  obtain ⟨start, hstart⟩ := exists_mem_of_ne_nil _ hpending
  have hin : ∀ {other : PublicNode}, other ∈ pending → other ∈ snapshot.nodes := fun hother =>
    hperm.subset (mem_append_right _ hother)
  -- up from a pending node to the first whose parent is not pending
  have hclimb : ∀ label, Forest.Lineage snapshot.up label root.label →
      ∀ other ∈ pending, other.label = label → ∃ node ∈ pending, ∀ parent,
        node.parentLabel = some parent → parent ∈ done.map PublicNode.label := by
    intro label hlineage
    induction hlineage using Relation.ReflTransGen.head_induction_on with
    | refl =>
      intro other hother hlabel
      obtain rfl := inj_on_of_nodup_map hvalid.nodup (hin hother) hrootMem hlabel
      exact ⟨other, hother, fun parent hparent => by rw [hrootNone] at hparent; cases hparent⟩
    | @head label above hstep _ ih =>
      intro other hother hlabel
      have hup : other.parentLabel = some above := by
        rw [← PublicTree.up_of_node hvalid.nodup (hin hother), hlabel]
        exact hstep
      obtain ⟨top, htop, rfl⟩ := PublicTree.mem_labels.mp (hvalid.parents other (hin hother) above hup)
      rcases mem_append.mp (hperm.symm.subset htop) with hdone | hwaits
      · refine ⟨other, hother, fun parent hparent => ?_⟩
        rw [hup] at hparent
        rw [← Option.some.inj hparent]
        exact mem_map_of_mem hdone
      · exact ih top hwaits rfl
  exact hclimb start.label (hvalid.rooted start (hin hstart) root hrootMem hrootNone) start hstart rfl

section Run

variable {snapshot : PublicTree} (h₀ : db₀.Sound) (hvalid : snapshot.Valid)
  (hkeyId : keyId ∈ db₀.keys.map KeyRow.id) (hkeys : UsableKeys db₀ snapshot)
  (hunsealed : db₀.Unsealed keyId snapshot)

include h₀ hvalid hkeyId hkeys hunsealed

theorem applyRound_run {pending : List PublicNode} :
    ∀ {done next : List PublicNode} {db : Store}, Applied db₀ db keyId done →
      (∀ node ∈ done ++ pending, node ∈ snapshot.nodes) →
      ((done ++ pending).map PublicNode.label).Nodup →
      ∃ result db', applyRound keyId snapshot.labels pending (done.map PublicNode.label) next db
        = (.ok result, db') := by
  induction pending with
  | nil => exact fun _ _ _ => ⟨_, _, rfl⟩
  | cons node rest ih =>
    intro done next db h hin hnodup
    rw [applyRound]
    split
    next =>
      have hsub : (done ++ rest).Sublist (done ++ node :: rest) :=
        (sublist_cons_self node rest).append_left done
      exact ih h (fun other hother => hin other (hsub.subset hother)) (hnodup.sublist (hsub.map _))
    next hready =>
      have hnode : node ∈ snapshot.nodes := hin node (by simp)
      have hnew := label_not_done hnodup
      have hparent : ∀ parent, node.parentLabel = some parent → parent ∈ done.map PublicNode.label := by
        intro parent hparent
        rw [hparent] at hready
        have hlabel := hvalid.parents node hnode parent hparent
        by_contra hnot
        refine hready ?_
        rw [Option.any_some, Bool.and_eq_true, Bool.not_eq_true', contains_eq_mem,
          contains_eq_mem, decide_eq_true_eq, decide_eq_false_iff_not]
        exact ⟨hlabel, hnot⟩
      obtain ⟨mid, hmid⟩ := applyPublicNode_run h hvalid hkeyId hkeys hunsealed
        (fun other hother => hin other (mem_append_left _ hother)) hnode hnew hparent
      have hstep := h.step h₀ (hvalid.shaped node hnode) hnew hmid
      have hsplit : done ++ node :: rest = (done ++ [node]) ++ rest := by simp
      obtain ⟨result, db', hrest⟩ := @ih _ next _ hstep (hsplit ▸ hin) (hsplit ▸ hnodup)
      refine ⟨result, db', ?_⟩
      rw [Op.bind_of_ok hmid, ← hrest]
      simp

/-- **The loop ends**: every round writes a node. -/
theorem applyPending_run :
    ∀ {pending done : List PublicNode} {db : Store}, Applied db₀ db keyId done →
      (done ++ pending).Perm snapshot.nodes → pending.length ≤ rounds →
      ∃ db', applyPending keyId snapshot.labels rounds pending (done.map PublicNode.label) db
        = (.ok (), db') := by
  induction rounds with
  | zero =>
    intro pending done db h _ hlength
    obtain rfl := length_eq_zero_iff.mp (Nat.le_zero.mp hlength)
    exact ⟨_, rfl⟩
  | succ rounds ih =>
    intro pending done db h hperm hlength
    cases hpending : pending with
    | nil => exact ⟨_, rfl⟩
    | cons node rest =>
      rw [← hpending]
      have hnodup : ((done ++ pending).map PublicNode.label).Nodup :=
        (hperm.map PublicNode.label).nodup_iff.mpr hvalid.nodup
      obtain ⟨⟨next, ready⟩, mid, hround⟩ := @applyRound_run _ _ _ _ h₀ hvalid hkeyId hkeys
        hunsealed pending done [] db h (fun other hother => hperm.subset hother) hnodup
      obtain ⟨written, waiting, happlied, rfl, hnext, hsplit, hwaiting⟩ := applyRound_ok h₀ h
        (fun other hother => hvalid.shaped other (hperm.subset (mem_append_right _ hother)))
        hnodup hround
      rw [nil_append] at hnext
      -- the topmost pending node did not wait
      have hprogress : written ≠ [] := by
        rintro rfl
        obtain ⟨top, htop, hready⟩ := exists_ready hvalid hperm (by rw [hpending]; simp)
        obtain ⟨parent, hparent, hnot⟩ := hwaiting top (hsplit.symm.subset htop)
        exact hnot (hready parent hparent)
      have hcount := hsplit.length_eq
      rw [length_append] at hcount
      have hpos := length_pos_iff.mpr hprogress
      obtain ⟨db', hrest⟩ := ih happlied (by
        rw [append_assoc]
        exact (hsplit.append_left done).trans hperm) (show waiting.length ≤ rounds by omega)
      refine ⟨db', ?_⟩
      rw [hpending, applyPending, ← hpending, Op.bind_of_ok hround]
      dsimp only
      rw [hnext, if_neg (by omega), hrest]

end Run

end Adopt

end Store

end KeyQuorum
