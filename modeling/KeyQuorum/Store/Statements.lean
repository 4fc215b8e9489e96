/-
  **THE STATEMENTS THE PROGRAM RUNS AGAINST THE DATABASE.**

  One definition for each `INSERT`, `UPDATE` and `DELETE` on the tables of
  the split trees, with the constraints of `schema.sql` that can refuse it:
  primary keys, `CHECK`s, foreign keys and the key-type trigger.  A refused
  statement is a database error and changes nothing.
-/
import KeyQuorum.Store

namespace KeyQuorum

open List Foundation

abbrev Db (α : Type) : Type := Op Store Error α

def Db.transaction {α : Type} (m : Db α) : Db α := Op.rollback (fun before _ => before) m

variable {m : Db α} {db db' : Store}

theorem Db.transaction_ok (h : m.transaction db = (.ok a, db')) : m db = (.ok a, db') :=
  Op.rollback_ok h

theorem Db.transaction_of_ok (h : m db = (.ok a, db')) : m.transaction db = (.ok a, db') :=
  Op.rollback_of_ok h

theorem Db.transaction_error (h : m.transaction db = (.error e, db')) : db' = db := by
  unfold Db.transaction Op.rollback at h
  split at h
  next => cases h
  next => exact (Prod.mk.inj h).2.symm

namespace Store

/-! ## §1. Inserts. -/

/-- `INSERT INTO keys (label) VALUES (..)`, with the defaults of the schema. -/
def insertKey (label : String) : Db Nat := do
  let db ← Op.read
  let id := freshId (db.keys.map KeyRow.id)
  Op.modify fun db => { db with keys := db.keys ++ [{ id, label }] }
  return id

/-- What the foreign keys of `key_nodes` and the trigger on its key type ask of a row. -/
def references (db : Store) (row : NodeRow) : Bool :=
  (db.keys.any fun key => key.id = row.keyId)
    && (row.parentId.all fun parent => db.nodes.any fun other => other.id = parent)
    && (row.hardwareKeyId.all fun id =>
      db.hardwareKeys.any fun key => key.id = id && key.keyType = .encryption)

/-- The id of the next row of `key_nodes`. -/
abbrev freshNode (db : Store) : Nat := freshId (db.nodes.map NodeRow.id)

/-- `INSERT INTO key_nodes`; the row's id is the next one. -/
def insertNode (row : NodeRow) : Db Nat := do
  let db ← Op.read
  let id := db.freshNode
  Op.require (row.check && db.references row) .database
  Op.modify fun db => { db with nodes := db.nodes ++ [{ row with id }] }
  return id

/-- `INSERT INTO key_node_bridges`. -/
def insertBridge (bridge : BridgeRow) : Db Unit := do
  let db ← Op.read
  Op.require ((db.nodes.any fun node => node.id = bridge.nodeId) && !db.bridges.contains bridge)
    .database
  Op.modify fun db => { db with bridges := db.bridges ++ [bridge] }

def withBridge (db : Store) (bridge : BridgeRow) : Store :=
  if bridge ∈ db.bridges then db else { db with bridges := db.bridges ++ [bridge] }

def withLink (db : Store) (link : LinkRow) : Store :=
  if link ∈ db.links then db else { db with links := db.links ++ [link] }

/-- `INSERT OR IGNORE INTO key_node_bridges`. -/
def insertBridgeOrIgnore (bridge : BridgeRow) : Db Unit := do
  let db ← Op.read
  Op.require (db.nodes.any fun node => node.id = bridge.nodeId) .database
  Op.modify fun db => db.withBridge bridge

/-- `INSERT OR IGNORE INTO key_node_links`; a failed `CHECK` is ignored as well. -/
def insertLinkOrIgnore (link : LinkRow) : Db Unit := do
  let db ← Op.read
  Op.require ((db.nodes.any fun node => node.id = link.nodeAId)
    && db.nodes.any fun node => node.id = link.nodeBId) .database
  Op.modify fun db => if link.nodeAId < link.nodeBId then db.withLink link else db

/-- `INSERT INTO hardware_keys`; the fingerprint is unique. -/
def insertHardwareKey (label : String) (keyType : KeyType) (fingerprint : String)
    (publicKey : Bytes) : Db Nat := do
  let db ← Op.read
  let id := freshId (db.hardwareKeys.map HardwareKey.id)
  Op.require (!db.hardwareKeys.any fun key => key.fingerprint = fingerprint) .database
  Op.modify fun db =>
    { db with hardwareKeys :=
        db.hardwareKeys ++ [⟨id, label, keyType, fingerprint, publicKey, false⟩] }
  return id

/-! ## §2. Updates and deletes. -/

/-- `UPDATE key_nodes SET .. WHERE id = ..`. -/
def updateNode (id : Nat) (change : NodeRow → NodeRow) : Db Unit := do
  let db ← Op.read
  Op.require ((db.nodes.filter fun row => row.id = id).all fun row =>
    (change row).check && db.references (change row)) .database
  Op.modify fun db =>
    { db with nodes := db.nodes.map fun row => if row.id = id then change row else row }

/-- The rows that `ON DELETE CASCADE` takes along: those with a parent among the deleted, over and
over. -/
def cascade (nodes : List NodeRow) : Nat → List Nat → List Nat
  | 0, gone => gone
  | rounds + 1, gone =>
    cascade nodes rounds (gone ++ (nodes.filter fun row =>
      row.parentId.any fun parent => gone.contains parent).map NodeRow.id)

/-- The database with only the nodes whose ids are kept, and what refers to them. -/
def keeping (db : Store) (kept : Nat → Bool) : Store :=
  { db with nodes := db.nodes.filter fun row => kept row.id
            bridges := db.bridges.filter fun bridge => kept bridge.nodeId
            links := db.links.filter fun link => kept link.nodeAId && kept link.nodeBId }

/-- `DELETE FROM key_nodes WHERE ..`. -/
def deleteNodes (selected : NodeRow → Bool) : Db Unit :=
  Op.modify fun db =>
    let gone := cascade db.nodes db.nodes.length ((db.nodes.filter selected).map NodeRow.id)
    db.keeping fun id => !gone.contains id

/-- `DELETE FROM key_node_bridges WHERE ..`. -/
def deleteBridges (selected : Store → BridgeRow → Bool) : Db Unit :=
  Op.modify fun db => { db with bridges := db.bridges.filter fun bridge => !selected db bridge }

/-- `DELETE FROM key_node_links WHERE ..`. -/
def deleteLinks (selected : Store → LinkRow → Bool) : Db Unit :=
  Op.modify fun db => { db with links := db.links.filter fun link => !selected db link }

/-- `UPDATE keys SET public_generation = .. WHERE id = ..`. -/
def updateGeneration (keyId generation : Nat) : Db Unit := do
  Op.require (0 < generation) .database
  Op.modify fun db =>
    { db with keys := db.keys.map fun key =>
        if key.id = keyId then { key with publicGeneration := generation } else key }

/-- `INSERT OR IGNORE INTO tree_generations_seen`. -/
def insertGenerationSeen (keyId generation : Nat) : Db Unit :=
  Op.modify fun db =>
    if db.generationsSeen.contains (keyId, generation) then db
    else { db with generationsSeen := db.generationsSeen ++ [(keyId, generation)] }

/-! ## §3. What they keep. -/

section Keep

variable {db db' : Store} {label : String} {id : Nat} {row : NodeRow} {bridge : BridgeRow}
  {nodes : List NodeRow} {gone : List Nat} {link : LinkRow} {change : NodeRow → NodeRow} {u : Unit}
  {keyType : KeyType} {publicKey : Bytes}

theorem insertKey_ok (h : insertKey label db = (.ok id, db')) :
    id = freshId (db.keys.map KeyRow.id) ∧ db' = { db with keys := db.keys ++ [{ id, label }] } := by
  obtain ⟨rfl, rfl⟩ := Op.modify_pure_ok (Op.read_bind_ok h)
  exact ⟨rfl, rfl⟩

theorem insertNode_ok : insertNode row db = (.ok id, db')
    ↔ (row.check ∧ db.references row) ∧ id = db.freshNode
      ∧ db' = { db with nodes := db.nodes ++ [{ row with id }] } := by
  unfold insertNode
  rw [Op.read_bind, Op.require_modify_pure_ok, Bool.and_eq_true]
  refine and_congr_right fun _ => and_congr_right ?_
  rintro rfl
  rfl

theorem insertBridge_ok (h : insertBridge bridge db = (.ok u, db')) :
    bridge ∉ db.bridges ∧ db' = { db with bridges := db.bridges ++ [bridge] } := by
  obtain ⟨hcheck, h⟩ := Op.require_bind_ok (Op.read_bind_ok h)
  exact ⟨by simpa using (Bool.and_eq_true_iff.mp hcheck).2, Op.modify_ok h⟩

theorem insertHardwareKey_ok {fingerprint : String} :
    insertHardwareKey label keyType fingerprint publicKey db = (.ok id, db')
      ↔ fingerprint ∉ db.hardwareKeys.map HardwareKey.fingerprint
      ∧ id = freshId (db.hardwareKeys.map HardwareKey.id)
      ∧ db' = { db with hardwareKeys :=
          db.hardwareKeys ++ [⟨id, label, keyType, fingerprint, publicKey, false⟩] } := by
  unfold insertHardwareKey
  rw [Op.read_bind, Op.require_modify_pure_ok]
  refine and_congr (by simp) (and_congr_right ?_)
  rintro rfl
  rfl

theorem updateNode_ok : updateNode id change db = (.ok u, db')
    ↔ (∀ row ∈ db.nodes, row.id = id → (change row).check ∧ db.references (change row))
      ∧ db' = { db with nodes := db.nodes.map fun row => if row.id = id then change row else row } := by
  unfold updateNode
  rw [Op.read_bind, Op.require_modify_ok]
  simp [imp_iff_not_or]

theorem insertBridgeOrIgnore_run (h : bridge.nodeId ∈ db.nodes.map NodeRow.id) :
    insertBridgeOrIgnore bridge db = (.ok (), db.withBridge bridge) := by
  obtain ⟨node, hnode, hid⟩ := mem_map.mp h
  unfold insertBridgeOrIgnore
  rw [Op.read_bind, Op.require_bind (any_eq_true.mpr ⟨node, hnode, by simpa using hid⟩)]
  rfl

theorem insertLinkOrIgnore_run (hlt : link.nodeAId < link.nodeBId)
    (ha : link.nodeAId ∈ db.nodes.map NodeRow.id) (hb : link.nodeBId ∈ db.nodes.map NodeRow.id) :
    insertLinkOrIgnore link db = (.ok (), db.withLink link) := by
  obtain ⟨nodeA, hnodeA, hidA⟩ := mem_map.mp ha
  obtain ⟨nodeB, hnodeB, hidB⟩ := mem_map.mp hb
  unfold insertLinkOrIgnore
  rw [Op.read_bind, Op.require_bind (by
    rw [Bool.and_eq_true, any_eq_true, any_eq_true]
    exact ⟨⟨nodeA, hnodeA, by simpa using hidA⟩, nodeB, hnodeB, by simpa using hidB⟩)]
  unfold Op.modify
  dsimp only
  rw [if_pos hlt]

theorem mem_withBridge :
    other ∈ (db.withBridge bridge).bridges ↔ other ∈ db.bridges ∨ other = bridge := by
  unfold withBridge
  split
  next hin =>
    refine ⟨.inl, ?_⟩
    rintro (h | rfl)
    · exact h
    · exact hin
  next => simp

theorem mem_withLink : other ∈ (db.withLink link).links ↔ other ∈ db.links ∨ other = link := by
  unfold withLink
  split
  next hin =>
    refine ⟨.inl, ?_⟩
    rintro (h | rfl)
    · exact h
    · exact hin
  next => simp

theorem withBridge_eq (bridge : BridgeRow) :
    db.withBridge bridge = { db with bridges := (db.withBridge bridge).bridges } := by
  unfold withBridge
  split <;> rfl

theorem withLink_eq (link : LinkRow) :
    db.withLink link = { db with links := (db.withLink link).links } := by
  unfold withLink
  split <;> rfl

theorem cascade_subset {P : Nat → Prop} (rounds : Nat) (hgone : ∀ id ∈ gone, P id)
    (hchild : ∀ row ∈ nodes, ∀ parent, row.parentId = some parent → P parent → P row.id) :
    ∀ id ∈ cascade nodes rounds gone, P id := by
  induction rounds generalizing gone with
  | zero => exact hgone
  | succ rounds ih =>
    refine ih fun id hid => ?_
    rcases mem_append.mp hid with hid | hid
    · exact hgone id hid
    · obtain ⟨row, hrow, rfl⟩ := mem_map.mp hid
      obtain ⟨hmem, hparent⟩ := mem_filter.mp hrow
      rw [Option.any_eq_true] at hparent
      obtain ⟨parent, hparent, hin⟩ := hparent
      exact hchild row hmem parent hparent (hgone parent (by simpa using hin))

theorem subset_cascade (rounds : Nat) : gone ⊆ cascade nodes rounds gone := by
  induction rounds generalizing gone with
  | zero => exact List.Subset.refl _
  | succ rounds ih =>
    exact fun id hid => ih (mem_append_left _ hid)

theorem keeping_keeping (first second : Nat → Bool) :
    (db.keeping first).keeping second = db.keeping fun id => first id && second id := by
  unfold keeping
  simp only [filter_filter]
  congr 1
  · exact filter_congr fun row _ => Bool.and_comm _ _
  · exact filter_congr fun bridge _ => Bool.and_comm _ _
  · refine filter_congr fun link _ => ?_
    cases first link.nodeAId <;> cases first link.nodeBId <;> simp

theorem insertBridge_atomic (bridge : BridgeRow) : Op.Atomic (insertBridge bridge) :=
  .read_bind fun _ => .require_bind (.modify _)

theorem references_iff :
    db.references row ↔ row.keyId ∈ db.keys.map KeyRow.id
      ∧ (∀ parent, row.parentId = some parent → parent ∈ db.nodes.map NodeRow.id)
      ∧ ∀ id, row.hardwareKeyId = some id →
        ∃ key ∈ db.hardwareKeys, key.id = id ∧ key.keyType = .encryption := by
  unfold references
  rw [Bool.and_eq_true, Bool.and_eq_true, and_assoc]
  refine and_congr ?_ (and_congr ?_ ?_)
  · simp
  · cases row.parentId <;> simp
  · cases row.hardwareKeyId <;> simp

section Sound

variable [Crypto]

section

variable (h : db.Sound)

include h

theorem Sound.insertKey (label : String) : (insertKey label db).2.Sound := by
  have hfresh := freshId_not_mem (db.keys.map KeyRow.id)
  refine { h with keyIds := ?_, generations := ?_, nodeKeys := ?_ }
  · show ((db.keys ++ _).map KeyRow.id).Nodup
    rw [map_append]
    exact nodup_snoc h.keyIds hfresh
  · intro key hkey
    rcases mem_snoc.mp hkey with hkey | rfl
    · exact h.generations key hkey
    · exact Nat.one_pos
  · intro row hrow
    show row.keyId ∈ (db.keys ++ _).map KeyRow.id
    rw [map_append]
    exact mem_append_left _ (h.nodeKeys row hrow)

theorem Sound.addNodes (hsorted : (db.nodes ++ added).Pairwise fun a b => a.id < b.id)
    (hrow : ∀ row ∈ added, row.keyId ∈ db.keys.map KeyRow.id ∧ row.check
      ∧ (∀ id, row.hardwareKeyId = some id → ∃ key ∈ db.hardwareKeys, key.id = id ∧ key.keyType = .encryption)
      ∧ ∀ parent, row.parentId = some parent →
        ∃ other ∈ db.nodes ++ added, other.id = parent ∧ other.keyId = row.keyId)
    (hlabels : ∀ a ∈ added, ∀ b ∈ db.nodes ++ added, a.keyId = b.keyId → a.label = b.label → a = b) :
    ({ db with nodes := db.nodes ++ added } : Store).Sound := by
  have hids : ∀ {id : Nat}, id ∈ db.nodes.map NodeRow.id → id ∈ (db.nodes ++ added).map NodeRow.id := by
    intro id hid
    rw [map_append]
    exact mem_append_left _ hid
  refine { h with nodeIds := hsorted, nodeKeys := fun row hin => ?_, nodeParents := fun row hin => ?_,
                  nodeHardware := fun row hin => ?_, nodeChecks := fun row hin => ?_,
                  nodeLabels := fun a ha b hb hkey hlabel => ?_,
                  bridgeNodes := fun bridge hbridge => hids (h.bridgeNodes bridge hbridge),
                  linkNodes := fun link hlink => ?_ }
  · exact (mem_append.mp hin).elim (h.nodeKeys row) fun hin => (hrow row hin).1
  · rcases mem_append.mp hin with hin | hin
    · intro parent hparent
      obtain ⟨other, hother, heq⟩ := h.nodeParents row hin parent hparent
      exact ⟨other, mem_append_left _ hother, heq⟩
    · exact (hrow row hin).2.2.2
  · exact (mem_append.mp hin).elim (h.nodeHardware row) fun hin => (hrow row hin).2.2.1
  · exact (mem_append.mp hin).elim (h.nodeChecks row) fun hin => (hrow row hin).2.1
  · rcases mem_append.mp ha with ha | ha
    · rcases mem_append.mp hb with hb | hb
      · exact h.nodeLabels a ha b hb hkey hlabel
      · exact (hlabels b hb a (mem_append_left _ ha) hkey.symm hlabel.symm).symm
    · exact hlabels a ha b hb hkey hlabel
  · obtain ⟨hlt, ha, hb⟩ := h.linkNodes link hlink
    exact ⟨hlt, hids ha, hids hb⟩

theorem Sound.insertNode (hok : insertNode row db = (.ok id, db'))
    (hlabel : ∀ other ∈ db.nodes, other.keyId = row.keyId → other.label ≠ row.label)
    (hparent : ∀ parent, row.parentId = some parent →
      ∃ other ∈ db.nodes, other.id = parent ∧ other.keyId = row.keyId) : db'.Sound := by
  obtain ⟨⟨hcheck, hrefs⟩, rfl, rfl⟩ := insertNode_ok.mp hok
  obtain ⟨hkey, -, hhardware⟩ := references_iff.mp hrefs
  refine h.addNodes ?_ (fun other hother => ?_) fun a ha b hb hkeyId heq => ?_
  · refine pairwise_append.mpr ⟨h.nodeIds, pairwise_singleton _ _, fun a ha b hb => ?_⟩
    rw [mem_singleton.mp hb]
    exact lt_freshId (mem_map_of_mem ha)
  · obtain rfl := mem_singleton.mp hother
    refine ⟨hkey, hcheck, hhardware, fun parent hp => ?_⟩
    obtain ⟨p, hmem, heq⟩ := hparent parent hp
    exact ⟨p, mem_append_left _ hmem, heq⟩
  · obtain rfl := mem_singleton.mp ha
    rcases mem_snoc.mp hb with hb | rfl
    · exact absurd heq.symm (hlabel b hb hkeyId.symm)
    · rfl

theorem Sound.insertHardwareKey (hlength : publicKey.length = 32)
    (hok : insertHardwareKey label keyType (fingerprint publicKey) publicKey db = (.ok id, db')) :
    db'.Sound := by
  obtain ⟨hnew, rfl, rfl⟩ := insertHardwareKey_ok.mp hok
  refine { h with hardwareIds := ?_, fingerprints := ?_, registered := ?_, nodeHardware := ?_ }
  · rw [map_append]
    exact nodup_snoc h.hardwareIds (freshId_not_mem _)
  · rw [map_append]
    exact nodup_snoc h.fingerprints hnew
  · intro key hkey
    rcases mem_snoc.mp hkey with hkey | rfl
    · exact h.registered key hkey
    · exact ⟨hlength, rfl⟩
  · intro row hrow id hid
    obtain ⟨key, hkey, heq⟩ := h.nodeHardware row hrow id hid
    exact ⟨key, mem_append_left _ hkey, heq⟩

/-- Updating a node in place: its id, tree and label stay, and its parent is in the same tree. -/
theorem Sound.updateNode (hok : updateNode id change db = (.ok u, db'))
    (hsame : ∀ row, (change row).id = row.id ∧ (change row).keyId = row.keyId
      ∧ (change row).label = row.label)
    (hparent : ∀ row ∈ db.nodes, row.id = id → ∀ parent, (change row).parentId = some parent →
      ∃ other ∈ db.nodes, other.id = parent ∧ other.keyId = row.keyId) : db'.Sound := by
  obtain ⟨hchecks, rfl⟩ := updateNode_ok.mp hok
  -- a row and what it becomes agree in id, tree and label
  let updated : NodeRow → NodeRow := fun row => if row.id = id then change row else row
  have hupdated : ∀ row, (updated row).id = row.id ∧ (updated row).keyId = row.keyId
      ∧ (updated row).label = row.label := by
    intro row
    by_cases hid : row.id = id
    · rw [show updated row = change row from if_pos hid]
      exact hsame row
    · rw [show updated row = row from if_neg hid]
      exact ⟨rfl, rfl, rfl⟩
  have hids : (db.nodes.map updated).map NodeRow.id = db.nodes.map NodeRow.id := by
    rw [map_map]
    exact map_congr_left fun row _ => (hupdated row).1
  have hcases : ∀ {row : NodeRow}, row ∈ db.nodes →
      (row.id = id ∧ updated row = change row) ∨ updated row = row := by
    intro row _
    by_cases hid : row.id = id
    · exact .inl ⟨hid, if_pos hid⟩
    · exact .inr (if_neg hid)
  refine { h with nodeIds := ?_, nodeKeys := ?_, nodeParents := ?_, nodeHardware := ?_,
                  nodeChecks := ?_, nodeLabels := ?_, bridgeNodes := ?_, linkNodes := ?_ }
  · show (db.nodes.map updated).Pairwise _
    rw [pairwise_map]
    exact h.nodeIds.imp fun hlt => by rwa [(hupdated _).1, (hupdated _).1]
  · intro row hrow
    obtain ⟨old, hold, rfl⟩ := mem_map.mp hrow
    exact (hupdated old).2.1 ▸ h.nodeKeys old hold
  · intro row hrow parent hp
    obtain ⟨old, hold, rfl⟩ := mem_map.mp hrow
    have hexists : ∃ other ∈ db.nodes, other.id = parent ∧ other.keyId = old.keyId := by
      rcases hcases hold with ⟨hid, heq⟩ | heq
      · exact hparent old hold hid parent (heq ▸ hp)
      · exact h.nodeParents old hold parent (heq ▸ hp)
    obtain ⟨other, hother, hid, hkey⟩ := hexists
    refine ⟨updated other, mem_map_of_mem hother, (hupdated other).1.trans hid, ?_⟩
    exact (hupdated other).2.1.trans (hkey.trans (hupdated old).2.1.symm)
  · intro row hrow hardware hhardware
    obtain ⟨old, hold, rfl⟩ := mem_map.mp hrow
    rcases hcases hold with ⟨hid, heq⟩ | heq
    · exact (references_iff.mp (hchecks old hold hid).2).2.2 hardware (heq ▸ hhardware)
    · exact h.nodeHardware old hold hardware (heq ▸ hhardware)
  · intro row hrow
    obtain ⟨old, hold, rfl⟩ := mem_map.mp hrow
    show (updated old).check
    rcases hcases hold with ⟨hid, heq⟩ | heq
    · rw [heq]
      exact (hchecks old hold hid).1
    · rw [heq]
      exact h.nodeChecks old hold
  · intro a ha b hb hkeyId hlabel
    obtain ⟨oldA, holdA, rfl⟩ := mem_map.mp ha
    obtain ⟨oldB, holdB, rfl⟩ := mem_map.mp hb
    rw [(hupdated oldA).2.1, (hupdated oldB).2.1] at hkeyId
    rw [(hupdated oldA).2.2, (hupdated oldB).2.2] at hlabel
    rw [h.nodeLabels oldA holdA oldB holdB hkeyId hlabel]
  · intro bridge hbridge
    show bridge.nodeId ∈ (db.nodes.map updated).map NodeRow.id
    rw [hids]
    exact h.bridgeNodes bridge hbridge
  · intro link hlink
    show _ ∧ link.nodeAId ∈ (db.nodes.map updated).map NodeRow.id
      ∧ link.nodeBId ∈ (db.nodes.map updated).map NodeRow.id
    rw [hids]
    exact h.linkNodes link hlink

theorem Sound.keeping
    (hclosed : ∀ row ∈ db.nodes, kept row.id → ∀ parent, row.parentId = some parent → kept parent) :
    (db.keeping kept).Sound := by
  have hsub : ∀ {row : NodeRow}, row ∈ (db.keeping kept).nodes →
      row ∈ db.nodes ∧ kept row.id := fun hrow => mem_filter.mp hrow
  have hid : ∀ {id : Nat}, id ∈ db.nodes.map NodeRow.id → kept id →
      id ∈ (db.keeping kept).nodes.map NodeRow.id := by
    intro id hin hkept
    obtain ⟨row, hrow, rfl⟩ := mem_map.mp hin
    exact mem_map_of_mem (mem_filter.mpr ⟨hrow, hkept⟩)
  refine { h with nodeIds := ?_, nodeKeys := ?_, nodeParents := ?_, nodeHardware := ?_,
                  nodeChecks := ?_, nodeLabels := ?_, bridgeRows := ?_, bridgeNodes := ?_,
                  linkRows := ?_, linkNodes := ?_ }
  · exact h.nodeIds.filter _
  · exact fun row hrow => h.nodeKeys row (hsub hrow).1
  · intro row hrow parent hparent
    obtain ⟨other, hother, rfl, hkey⟩ := h.nodeParents row (hsub hrow).1 parent hparent
    have hkept := hclosed row (hsub hrow).1 (hsub hrow).2 other.id hparent
    exact ⟨other, mem_filter.mpr ⟨hother, hkept⟩, rfl, hkey⟩
  · exact fun row hrow => h.nodeHardware row (hsub hrow).1
  · exact fun row hrow => h.nodeChecks row (hsub hrow).1
  · exact fun a ha b hb => h.nodeLabels a (hsub ha).1 b (hsub hb).1
  · exact h.bridgeRows.filter _
  · intro bridge hbridge
    obtain ⟨hmem, hkept⟩ := mem_filter.mp hbridge
    exact hid (h.bridgeNodes bridge hmem) hkept
  · exact h.linkRows.filter _
  · intro link hlink
    obtain ⟨hmem, hkept⟩ := mem_filter.mp hlink
    rw [Bool.and_eq_true] at hkept
    obtain ⟨hlt, ha, hb⟩ := h.linkNodes link hmem
    exact ⟨hlt, hid ha hkept.1, hid hb hkept.2⟩

theorem Sound.filterBridges (p : BridgeRow → Bool) :
    ({ db with bridges := db.bridges.filter p } : Store).Sound :=
  { h with bridgeRows := h.bridgeRows.filter p
           bridgeNodes := fun bridge hbridge => h.bridgeNodes bridge (mem_filter.mp hbridge).1 }

theorem Sound.filterLinks (p : LinkRow → Bool) :
    ({ db with links := db.links.filter p } : Store).Sound :=
  { h with linkRows := h.linkRows.filter p
           linkNodes := fun link hlink => h.linkNodes link (mem_filter.mp hlink).1 }

end

theorem Sound.withBridge (h : db.Sound) {bridge : BridgeRow}
    (hnode : bridge.nodeId ∈ db.nodes.map NodeRow.id) :
    (db.withBridge bridge).Sound := by
  unfold Store.withBridge
  split
  next => exact h
  next hnew =>
    refine { h with bridgeRows := ?_, bridgeNodes := ?_ }
    · exact nodup_snoc h.bridgeRows hnew
    · intro other hother
      rcases mem_snoc.mp hother with hother | rfl
      · exact h.bridgeNodes other hother
      · exact hnode

theorem Sound.withLink (h : db.Sound) (hlt : link.nodeAId < link.nodeBId)
    (ha : link.nodeAId ∈ db.nodes.map NodeRow.id) (hb : link.nodeBId ∈ db.nodes.map NodeRow.id) :
    (db.withLink link).Sound := by
  unfold Store.withLink
  split
  next => exact h
  next hnew =>
    refine { h with linkRows := ?_, linkNodes := ?_ }
    · exact nodup_snoc h.linkRows hnew
    · intro other hother
      rcases mem_snoc.mp hother with hother | rfl
      · exact h.linkNodes other hother
      · exact ⟨hlt, ha, hb⟩

theorem Sound.updateGeneration (h : db.Sound) (keyId : Nat) (hpos : 0 < generation) :
    ({ db with keys := db.keys.map fun key =>
        if key.id = keyId then { key with publicGeneration := generation } else key } : Store).Sound := by
  have hids : (db.keys.map fun key =>
      if key.id = keyId then { key with publicGeneration := generation } else key).map KeyRow.id
      = db.keys.map KeyRow.id := by
    rw [map_map]
    refine map_congr_left fun key _ => ?_
    show (if key.id = keyId then { key with publicGeneration := generation } else key : KeyRow).id = _
    split <;> rfl
  refine { h with keyIds := ?_, generations := ?_, nodeKeys := ?_ }
  · rw [hids]
    exact h.keyIds
  · intro key hkey
    obtain ⟨old, hold, rfl⟩ := mem_map.mp hkey
    show 0 < (if old.id = keyId then { old with publicGeneration := generation } else old
      : KeyRow).publicGeneration
    split
    · exact hpos
    · exact h.generations old hold
  · rw [hids]
    exact h.nodeKeys

end Sound

end Keep

end Store

end KeyQuorum
