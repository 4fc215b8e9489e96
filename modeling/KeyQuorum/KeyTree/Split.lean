/-
  **SPLITTING A SECRET DOWN A TREE** (`split` and `split_node` in
  `key_tree.rs`).

  The secret of a split is dealt into shares, one for each child, and a
  child's share is the secret of the next level; at a leaf the share is
  sealed to the leaf's key.
-/
import KeyQuorum.KeyTree.Spec
import KeyQuorum.Store.Statements
import KeyQuorum.Shamir

namespace KeyQuorum

open List Foundation

section Split

variable [Sharks] [SealedBoxes]

/-! ## §1. The walk. -/

/-- `seal_share`; `seed` is the randomness of the box. -/
def sealShare (hardwareKey : HardwareKey) (share : Bytes) (seed : Nat) : Except Error Bytes :=
  if h : hardwareKey.publicKey.length = 32 then
    .ok (SealedBoxes.sealWith ⟨hardwareKey.publicKey, h⟩ seed share)
  else .error .invalidPublicKey

namespace Store

def insertAllowedBridges (nodeId : Nat) : List String → Db Unit
  | [] => pure ()
  | peer :: rest => do
      insertBridge ⟨nodeId, peer⟩
      insertAllowedBridges nodeId rest

mutual

/-- `split_node`; `rng` gives the randomness drawn at a node. -/
def splitNode (rng : String → Nat) (keyId : Nat) (parentId : Option Nat) (secret : Bytes) :
    NodeSpec → Db Unit
  | .leaf label hardwareKeyId allowed => do
      let db ← Op.read
      let hardwareKey ← Op.lift (db.getActiveEncryptionKey hardwareKeyId)
      let wrappedShare ← Op.lift (sealShare hardwareKey secret (rng label))
      let nodeId ← insertNode
        { id := 0, keyId, parentId, label, threshold := none,
          hardwareKeyId := some hardwareKeyId, wrappedShare := some wrappedShare }
      insertAllowedBridges nodeId allowed
  | .split label threshold children allowed => do
      let nodeId ← insertNode
        { id := 0, keyId, parentId, label,
          threshold := some threshold.toNat, hardwareKeyId := none, wrappedShare := none }
      insertAllowedBridges nodeId allowed
      let shares := Sharks.deal threshold.toNat secret (rng label) children.length
      Op.require (shares.length = children.length) .invalidQuorumThreshold
      splitChildren rng keyId nodeId children shares

/-- The loop of `split_node`. -/
def splitChildren (rng : String → Nat) (keyId nodeId : Nat) :
    List NodeSpec → List Share → Db Unit
  | child :: children, share :: shares => do
      splitNode rng keyId (some nodeId) share.toBytes child
      splitChildren rng keyId nodeId children shares
  | _, _ => pure ()

end

variable (rng : String → Nat) (label : String) (secret : Bytes) (spec : NodeSpec)

def buildTree : Db Nat := do
  let db ← Op.read
  Op.lift (spec.validate db)
  let keyId ← insertKey label
  splitNode rng keyId none secret spec
  return keyId

def split : Db Nat :=
  (buildTree rng label secret spec).transaction

end Store

/-! ## §2. The plan. -/

structure Dealing where
  threshold : Nat
  secret : Bytes
  seed : Nat
  count : Nat
  deriving DecidableEq, Repr

def Dealing.Recovers (dealing : Dealing) : Prop :=
  KeyQuorum.Recovers dealing.threshold dealing.secret dealing.seed dealing.count

/-- A node to be created: its row id and its parent's, its specification, and the secret it is
given. -/
structure Planned where
  id : Nat
  parentId : Option Nat
  spec : NodeSpec
  secret : Bytes

mutual

/-- The nodes a split creates, parents before children, with consecutive ids from `base` on. -/
def plan (rng : String → Nat) (parentId : Option Nat) (base : Nat) (secret : Bytes) :
    NodeSpec → List Planned
  | .leaf label hardwareKeyId allowed =>
    [⟨base, parentId, .leaf label hardwareKeyId allowed, secret⟩]
  | .split label threshold children allowed =>
    ⟨base, parentId, .split label threshold children allowed, secret⟩
      :: planAll rng base (base + 1) children
        (Sharks.deal threshold.toNat secret (rng label) children.length)

def planAll (rng : String → Nat) (parent base : Nat) : List NodeSpec → List Share → List Planned
  | child :: children, share :: shares =>
    let block := plan rng (some parent) base share.toBytes child
    block ++ planAll rng parent (base + block.length) children shares
  | _, _ => []

end

namespace Planned

def bridges (node : Planned) : List BridgeRow :=
  node.spec.allowedBridges.map fun peer => ⟨node.id, peer⟩

def sealed (db : Store) (rng : String → Nat) (hardwareKeyId : Nat) (label : String)
    (secret : Bytes) : Option Bytes := do
  let hardwareKey ← (db.getActiveEncryptionKey hardwareKeyId).toOption
  (sealShare hardwareKey secret (rng label)).toOption

def row (db : Store) (rng : String → Nat) (keyId : Nat) (node : Planned) : NodeRow :=
  match node.spec with
  | .leaf label hardwareKeyId _ =>
    { id := node.id, keyId, parentId := node.parentId, label,
      threshold := none, hardwareKeyId := some hardwareKeyId,
      wrappedShare := sealed db rng hardwareKeyId label node.secret }
  | .split label threshold _ _ =>
    { id := node.id, keyId, parentId := node.parentId, label,
      threshold := some threshold.toNat, hardwareKeyId := none, wrappedShare := none }

def dealing (rng : String → Nat) (node : Planned) : Option Dealing :=
  match node.spec with
  | .leaf _ _ _ => none
  | .split label threshold children _ =>
    some ⟨threshold.toNat, node.secret, rng label, children.length⟩

/-- The share of a leaf is sealed, and the secret of a split dealt to all its children. -/
def Complete (db : Store) (rng : String → Nat) (node : Planned) : Prop :=
  match node.spec with
  | .leaf label hardwareKeyId _ => (sealed db rng hardwareKeyId label node.secret).isSome
  | .split label threshold children _ =>
    (Sharks.deal threshold.toNat node.secret (rng label) children.length).length = children.length

end Planned

section Row

omit [Sharks]

variable {db : Store} {rng : String → Nat} {keyId : Nat} (node : Planned)

@[simp] theorem Planned.row_id : (node.row db rng keyId).id = node.id := by
  unfold Planned.row
  split <;> rfl

@[simp] theorem Planned.row_keyId : (node.row db rng keyId).keyId = keyId := by
  unfold Planned.row
  split <;> rfl

@[simp] theorem Planned.row_parentId : (node.row db rng keyId).parentId = node.parentId := by
  unfold Planned.row
  split <;> rfl

@[simp] theorem Planned.row_label : (node.row db rng keyId).label = node.spec.label := by
  unfold Planned.row
  split <;> rename_i h <;> rw [h] <;> rfl

@[simp] theorem Planned.row_isActive : (node.row db rng keyId).isActive = true := by
  unfold Planned.row
  split <;> rfl

end Row

def dealings (rng : String → Nat) (secret : Bytes) (spec : NodeSpec) : List Dealing :=
  (plan rng none 0 secret spec).filterMap (Planned.dealing rng)

def dealtShare (rng : String → Nat) (secret : Bytes) (spec : NodeSpec) (label : String) :
    Option Bytes :=
  ((plan rng none 0 secret spec).find? fun node => node.spec.label = label).map Planned.secret

section Plan

variable {rng : String → Nat}

section

omit [SealedBoxes]

theorem plan_ids (spec : NodeSpec) (parentId : Option Nat) (base : Nat) (secret : Bytes) :
    (plan rng parentId base secret spec).map Planned.id
      = List.range' base (plan rng parentId base secret spec).length := by
  induction spec using NodeSpec.induct generalizing parentId base secret with
  | leaf label hardwareKeyId allowed => rfl
  | split label threshold children allowed ih =>
    rw [plan, map_cons, length_cons, range'_succ]
    congr 1
    generalize base + 1 = start
    generalize Sharks.deal threshold.toNat secret (rng label) children.length = shares
    induction children generalizing start shares with
    | nil => rfl
    | cons child rest ihRest =>
      cases shares with
      | nil => rfl
      | cons share shares =>
        rw [planAll, map_append, length_append, ih child (.head _),
          ihRest (fun c hc => ih c (.tail _ hc)), ← range'_append_1]

theorem plan_secrets (spec : NodeSpec) (parentId parentId' : Option Nat) (base base' : Nat)
    (secret : Bytes) :
    (plan rng parentId base secret spec).map (fun node => (node.spec, node.secret))
      = (plan rng parentId' base' secret spec).map fun node => (node.spec, node.secret) := by
  induction spec using NodeSpec.induct generalizing parentId parentId' base base' secret with
  | leaf label hardwareKeyId allowed => rfl
  | split label threshold children allowed ih =>
    rw [plan, plan, map_cons, map_cons]
    congr 1
    generalize base + 1 = start
    generalize base' + 1 = start'
    generalize Sharks.deal threshold.toNat secret (rng label) children.length = shares
    induction children generalizing start start' shares with
    | nil => rfl
    | cons child rest ihRest =>
      cases shares with
      | nil => rfl
      | cons share shares =>
        rw [planAll, planAll, map_append, map_append, ih child (.head _) _ (some base') _ start',
          ihRest fun c hc => ih c (.tail _ hc)]

/-- The first node of the plan is the one asked for, and every other has its parent before it, in the
plan. -/
def Headed (rng : String → Nat) (spec : NodeSpec) : Prop :=
  ∀ (parentId : Option Nat) (base : Nat) (secret : Bytes),
    ∃ tail, plan rng parentId base secret spec = ⟨base, parentId, spec, secret⟩ :: tail
      ∧ ∀ node ∈ tail, ∃ q, node.parentId = some q ∧ base ≤ q ∧ q < base + tail.length + 1 ∧ q < node.id

/-- A node of the blocks of some children is such a child or has its parent in the blocks. -/
theorem planAll_parents {children : List NodeSpec} (hheaded : ∀ child ∈ children, Headed rng child)
    (shares : List Share) {parent start : Nat} (hstart : parent < start) :
    ∀ node ∈ planAll rng parent start children shares, ∃ q, node.parentId = some q
      ∧ (q = parent ∨ (start ≤ q ∧ q < start + (planAll rng parent start children shares).length))
      ∧ q < node.id := by
  induction children generalizing shares start with
  | nil =>
    intro node hnode
    rw [planAll] at hnode
    · cases hnode
    · simp
  | cons child rest ih =>
    intro node hnode
    cases shares with
    | nil => exact absurd hnode (by simp [planAll])
    | cons share shares =>
      rw [planAll] at hnode ⊢
      rw [length_append]
      rcases mem_append.mp hnode with hnode | hnode
      · obtain ⟨tail, hplan, htail⟩ := hheaded child (.head _) (some parent) start share.toBytes
        rw [hplan] at hnode ⊢
        rw [length_cons]
        rcases mem_cons.mp hnode with rfl | hnode
        · exact ⟨parent, rfl, .inl rfl, hstart⟩
        · obtain ⟨q, hq, hle, hlt, hid⟩ := htail node hnode
          exact ⟨q, hq, .inr ⟨hle, by omega⟩, hid⟩
      · obtain ⟨q, hq, hor, hid⟩ :=
          ih (fun c hc => hheaded c (.tail _ hc)) shares (Nat.lt_add_right _ hstart) node hnode
        exact ⟨q, hq, hor.imp_right fun h => ⟨by omega, by omega⟩, hid⟩

theorem plan_cases (spec : NodeSpec) : Headed rng spec := by
  induction spec using NodeSpec.induct with
  | leaf label hardwareKeyId allowed => exact fun _ _ _ => ⟨[], by rw [plan], nofun⟩
  | split label threshold children allowed ih =>
    refine fun parentId base secret => ⟨_, by rw [plan], fun node hnode => ?_⟩
    obtain ⟨q, hq, hor, hid⟩ := planAll_parents ih _ (by omega : base < base + 1) node hnode
    exact ⟨q, hq, by omega, by omega, hid⟩

theorem mem_plan (hnode : node ∈ plan rng parentId base secret spec) :
    node = ⟨base, parentId, spec, secret⟩ ∨ ∃ q, node.parentId = some q ∧ base ≤ q
      ∧ q < base + (plan rng parentId base secret spec).length ∧ q < node.id := by
  obtain ⟨tail, hplan, htail⟩ := @plan_cases _ rng spec parentId base secret
  rw [hplan] at hnode ⊢
  exact (mem_cons.mp hnode).imp_right (htail node)

theorem plan_head_mem (spec : NodeSpec) (parentId : Option Nat) (base : Nat) (secret : Bytes) :
    ⟨base, parentId, spec, secret⟩ ∈ plan rng parentId base secret spec := by
  obtain ⟨tail, hplan, -⟩ := @plan_cases _ rng spec parentId base secret
  rw [hplan]
  exact .head _

theorem plan_parent_lt (spec : NodeSpec) (parentId : Option Nat) (base : Nat) (secret : Bytes)
    (hparent : ∀ p, parentId = some p → p < base) :
    ∀ node ∈ plan rng parentId base secret spec, ∀ q, node.parentId = some q → q < node.id := by
  intro node hnode q hq
  rcases mem_plan hnode with rfl | ⟨q', hq', -, -, hlt⟩
  · exact hparent q hq
  · rwa [← Option.mem_unique hq hq'] at hlt

theorem plan_id_mem {id : Nat} :
    id ∈ (plan rng parentId base secret spec).map Planned.id
      ↔ base ≤ id ∧ id < base + (plan rng parentId base secret spec).length := by
  rw [plan_ids, mem_range'_1]

theorem plan_parent_mem (hnode : node ∈ plan rng none base secret spec)
    (hq : node.parentId = some q) : ∃ other ∈ plan rng none base secret spec, other.id = q := by
  refine mem_map.mp (plan_id_mem.mpr ?_)
  rcases mem_plan hnode with rfl | ⟨q', hq', hle, hlt, -⟩
  · cases hq
  · obtain rfl := Option.mem_unique hq hq'
    exact ⟨hle, hlt⟩

end

/-- The nodes of a plan are the nodes of the specification, in order, if every dealing is
complete. -/
theorem plan_specs (spec : NodeSpec) (parentId : Option Nat) (base : Nat) (secret : Bytes)
    {db : Store} (hcomplete : ∀ node ∈ plan rng parentId base secret spec, node.Complete db rng) :
    (plan rng parentId base secret spec).map Planned.spec = spec.subspecs := by
  induction spec using NodeSpec.induct generalizing parentId base secret with
  | leaf label hardwareKeyId allowed => rfl
  | split label threshold children allowed ih =>
    rw [plan] at hcomplete ⊢
    rw [map_cons, NodeSpec.subspecs]
    congr 1
    have hlength := hcomplete _ (.head _)
    unfold Planned.Complete at hlength
    dsimp only at hlength
    replace hcomplete := fun node hnode => hcomplete node (.tail _ hnode)
    revert hlength hcomplete
    generalize base + 1 = start
    generalize hshares : Sharks.deal threshold.toNat secret (rng label) children.length = shares
    clear hshares
    intro hlength hcomplete
    induction children generalizing start shares with
    | nil => rfl
    | cons child rest ihRest =>
      cases shares with
      | nil => cases hlength
      | cons share shares =>
        rw [planAll] at hcomplete ⊢
        rw [map_append, NodeSpec.subspecsAll, ih child (.head _) _ _ _
            fun node hnode => hcomplete node (mem_append_left _ hnode),
          ihRest (fun c hc => ih c (.tail _ hc)) _ _ (by simpa using hlength)
            fun node hnode => hcomplete node (mem_append_right _ hnode)]

end Plan

/-! ## §3. The walk follows the plan. -/

namespace Store

def KeepsBridges (db db' : Store) : Prop := db.bridges.Nodup → db'.bridges.Nodup

instance : IsPreorder Store KeepsBridges where
  refl _ h := h
  trans _ _ _ hab hbc h := hbc (hab h)

omit [Sharks] [SealedBoxes] in
theorem insertNode_bridges (row : NodeRow) : Op.Moves KeepsBridges (insertNode row) :=
  .read_bind fun _ => .require_bind (.bind (fun _ h => h) fun _ => .pure _)

omit [Sharks] [SealedBoxes] in
theorem insertAllowedBridges_bridges (nodeId : Nat) (peers : List String) :
    Op.Moves KeepsBridges (insertAllowedBridges nodeId peers) := by
  induction peers with
  | nil => exact .pure _
  | cons peer rest ih =>
    refine .bind (.of_atomic (insertBridge_atomic _) fun db u db' hok hnodup => ?_) fun _ => ih
    obtain ⟨hnew, rfl⟩ := insertBridge_ok hok
    exact nodup_snoc hnodup hnew

theorem splitNode_bridges (rng : String → Nat) (keyId : Nat) (spec : NodeSpec)
    (parentId : Option Nat) (secret : Bytes) :
    Op.Moves KeepsBridges (splitNode rng keyId parentId secret spec) := by
  induction spec using NodeSpec.induct generalizing parentId secret with
  | leaf label hardwareKeyId allowed =>
    exact .read_bind fun _ => .lift_bind fun _ => .lift_bind fun _ =>
      .bind (insertNode_bridges _) fun _ => insertAllowedBridges_bridges _ _
  | split label threshold children allowed ih =>
    refine .bind (insertNode_bridges _) fun nodeId =>
      .bind (insertAllowedBridges_bridges _ _) fun _ => .require_bind ?_
    generalize Sharks.deal threshold.toNat secret (rng label) children.length = shares
    induction children generalizing shares with
    | nil => exact .pure _
    | cons child rest ihRest =>
      cases shares with
      | nil => exact .pure _
      | cons share shares =>
        exact .bind (ih child (.head _) _ _) fun _ => ihRest (fun c hc => ih c (.tail _ hc)) shares

def withPlan (db : Store) (rng : String → Nat) (keyId : Nat) (nodes : List Planned) : Store :=
  { db with nodes := db.nodes ++ nodes.map (Planned.row db rng keyId)
            bridges := db.bridges ++ nodes.flatMap Planned.bridges }

variable {rng : String → Nat} {db db' : Store} {keyId : Nat}

omit [Sharks] in
theorem withPlan_singleton (node : Planned) :
    db.withPlan rng keyId [node]
      = { db with nodes := db.nodes ++ [node.row db rng keyId]
                  bridges := db.bridges ++ node.bridges } := by
  simp [withPlan]

omit [Sharks] in
theorem withPlan_append (first second : List Planned) :
    (db.withPlan rng keyId first).withPlan rng keyId second
      = db.withPlan rng keyId (first ++ second) := by
  unfold withPlan
  rw [map_append, flatMap_append, ← append_assoc, ← append_assoc]
  rfl

omit [Sharks] [SealedBoxes] in
theorem freshId_append (ids : List Nat) (count : Nat) :
    freshId (ids ++ List.range' (freshId ids) count) = freshId ids + count := by
  unfold freshId
  rw [foldl_append]
  generalize ids.foldl max 0 = top
  induction count generalizing top with
  | zero => rfl
  | succ count ih =>
    rw [range'_succ, foldl_cons, Nat.max_eq_right (by omega : top ≤ top + 1)]
    have := ih (top + 1)
    omega

omit [Sharks] [SealedBoxes] in
theorem insertAllowedBridges_ok (h : insertAllowedBridges nodeId peers db = (.ok u, db')) :
    db' = { db with bridges := db.bridges ++ peers.map fun peer => ⟨nodeId, peer⟩ } := by
  induction peers generalizing db with
  | nil =>
    obtain ⟨-, rfl⟩ := Op.pure_ok h
    simp
  | cons peer rest ih =>
    obtain ⟨_, mid, hfirst, h⟩ := Op.bind_ok h
    obtain ⟨-, rfl⟩ := insertBridge_ok hfirst
    rw [ih h, map_cons, append_assoc, singleton_append]

/-- At this specification the walk inserts the planned rows, and every dealing on the way is
complete. -/
def Follows (rng : String → Nat) (keyId : Nat) (spec : NodeSpec) : Prop :=
  ∀ (parentId : Option Nat) (secret : Bytes) (db db' : Store),
    splitNode rng keyId parentId secret spec db = (.ok (), db') →
    db' = db.withPlan rng keyId (plan rng parentId db.freshNode secret spec)
      ∧ ∀ node ∈ plan rng parentId db.freshNode secret spec, node.Complete db rng

theorem freshNode_withPlan (spec : NodeSpec) (parentId : Option Nat) (secret : Bytes) :
    (db.withPlan rng keyId (plan rng parentId db.freshNode secret spec)).freshNode
      = db.freshNode + (plan rng parentId db.freshNode secret spec).length := by
  rw [← freshId_append, ← plan_ids]
  unfold withPlan freshNode
  rw [map_append, map_map]
  congr 2
  exact map_congr_left fun node _ => node.row_id

theorem splitChildren_ok (hfollows : ∀ child ∈ children, Follows rng keyId child)
    (h : splitChildren rng keyId parent children shares db = (.ok (), db')) :
    db' = db.withPlan rng keyId (planAll rng parent db.freshNode children shares)
      ∧ ∀ node ∈ planAll rng parent db.freshNode children shares, node.Complete db rng := by
  induction children generalizing shares db with
  | nil =>
    obtain ⟨-, rfl⟩ := Op.pure_ok h
    exact ⟨by simp [withPlan, planAll], by simp [planAll]⟩
  | cons child rest ih =>
    cases shares with
    | nil =>
      obtain ⟨-, rfl⟩ := Op.pure_ok h
      exact ⟨by simp [withPlan, planAll], by simp [planAll]⟩
    | cons share shares =>
      obtain ⟨_, mid, hchild, h⟩ := Op.bind_ok h
      obtain ⟨rfl, hfirst⟩ := hfollows child (.head _) _ _ _ _ hchild
      obtain ⟨rfl, hrest⟩ := ih (fun c hc => hfollows c (.tail _ hc)) h
      rw [freshNode_withPlan] at hrest ⊢
      rw [withPlan_append, planAll]
      refine ⟨rfl, fun node hnode => ?_⟩
      rcases mem_append.mp hnode with hnode | hnode
      · exact hfirst node hnode
      · exact hrest node hnode

/-- **The walk inserts the planned rows**, and every dealing on the way is complete. -/
theorem splitNode_ok (spec : NodeSpec) : Follows rng keyId spec := by
  induction spec using NodeSpec.induct with
  | leaf label hardwareKeyId allowed =>
    intro parentId secret db db' h
    obtain ⟨hardwareKey, hkey, h⟩ := Op.lift_bind_ok (Op.read_bind_ok h)
    obtain ⟨wrapped, hwrapped, h⟩ := Op.lift_bind_ok h
    obtain ⟨id, mid, hinsert, h⟩ := Op.bind_ok h
    obtain ⟨-, rfl, rfl⟩ := insertNode_ok.mp hinsert
    rw [insertAllowedBridges_ok h]
    have hsealed : Planned.sealed db rng hardwareKeyId label secret = some wrapped := by
      unfold Planned.sealed
      rw [hkey]
      show (sealShare hardwareKey secret (rng label)).toOption = some wrapped
      rw [hwrapped]
      rfl
    refine ⟨?_, fun node hnode => ?_⟩
    · rw [plan, withPlan_singleton]
      simp only [Planned.row, hsealed, Planned.bridges, NodeSpec.allowedBridges]
    · rw [mem_singleton.mp hnode]
      exact Option.isSome_of_eq_some hsealed
  | split label threshold children allowed ih =>
    intro parentId secret db db' h
    obtain ⟨id, mid, hinsert, h⟩ := Op.bind_ok h
    obtain ⟨-, rfl, rfl⟩ := insertNode_ok.mp hinsert
    obtain ⟨_, mid, hbridges, h⟩ := Op.bind_ok h
    obtain rfl := insertAllowedBridges_ok hbridges
    obtain ⟨hlength, h⟩ := Op.require_bind_ok h
    rw [decide_eq_true_eq] at hlength
    rw [plan]
    generalize hhead : (⟨db.freshNode, parentId, .split label threshold children allowed, secret⟩ : Planned) = head
    replace h : splitChildren rng keyId db.freshNode children
        (Sharks.deal threshold.toNat secret (rng label) children.length)
        (db.withPlan rng keyId [head]) = (.ok (), db') := by
      rw [withPlan_singleton, ← hhead]
      exact h
    have hnext : (db.withPlan rng keyId [head]).freshNode = db.freshNode + 1 := by
      have := freshId_append (db.nodes.map NodeRow.id) 1
      rw [freshNode, withPlan_singleton, map_append, map_singleton, Planned.row_id, ← hhead]
      exact this
    obtain ⟨rfl, hrest⟩ := splitChildren_ok ih h
    rw [hnext] at hrest ⊢
    rw [withPlan_append]
    refine ⟨rfl, fun node hnode => ?_⟩
    rcases mem_cons.mp hnode with rfl | hnode
    · rw [← hhead]
      exact hlength
    · exact hrest node hnode

/-- **What a successful split leaves behind**: a new tree with the planned rows. -/
theorem split_ok (h : split rng label secret spec db = (.ok keyId, db')) :
    spec.Valid db ∧ keyId = freshId (db.keys.map KeyRow.id) ∧ KeepsBridges db db'
      ∧ db' = ({ db with keys := db.keys ++ [{ id := keyId, label }] } : Store).withPlan
        rng keyId (plan rng none db.freshNode secret spec)
      ∧ ∀ node ∈ plan rng none db.freshNode secret spec, node.Complete db rng := by
  have h := Db.transaction_ok h
  obtain ⟨_, hvalid, h⟩ := Op.lift_bind_ok (Op.read_bind_ok h)
  obtain ⟨id, mid, hkey, h⟩ := Op.bind_ok h
  obtain ⟨hid, rfl⟩ := insertKey_ok hkey
  obtain ⟨_, mid, hsplit, h⟩ := Op.bind_ok h
  obtain ⟨rfl, rfl⟩ := Op.pure_ok h
  have hbridges := splitNode_bridges rng id spec none secret
    { db with keys := db.keys ++ [{ id, label }] }
  rw [hsplit] at hbridges
  obtain ⟨rfl, hcomplete⟩ := splitNode_ok spec _ _ _ _ hsplit
  exact ⟨NodeSpec.validate_ok hvalid, hid, hbridges, rfl, hcomplete⟩

/-! ## §4. The split keeps the database sound. -/

section Rows

variable {label : String} {secret : Bytes} {spec : NodeSpec} {node : Planned} {parentId : Option Nat}

theorem plan_labels (hcomplete : ∀ node ∈ plan rng parentId base secret spec, node.Complete db rng) :
    ((plan rng parentId base secret spec).map (Planned.row db rng keyId)).map NodeRow.label
      = spec.labels := by
  unfold NodeSpec.labels
  rw [← plan_specs spec parentId base secret hcomplete, map_map, map_map]
  exact map_congr_left fun node _ => node.row_label

omit [Sharks] in
theorem row_check (hfits : node.spec.Fits db) :
    (node.row db rng keyId).check := by
  unfold Planned.row NodeRow.check
  split
  next => rfl
  next hspec =>
    rw [hspec] at hfits
    simpa using hfits.1

omit [Sharks] in
theorem row_hardware (hfits : node.spec.Fits db) {id : Nat}
    (h : (node.row db rng keyId).hardwareKeyId = some id) :
    ∃ key ∈ db.hardwareKeys, key.id = id ∧ key.keyType = .encryption := by
  unfold Planned.row at h
  split at h
  next hspec =>
    rw [hspec] at hfits
    cases h
    obtain ⟨key, hkey⟩ := hfits
    exact ⟨key, getActiveEncryptionKey_ok hkey⟩
  next => cases h

end Rows

section Sound

variable [Crypto] {label : String} {secret : Bytes} {spec : NodeSpec}

omit [Sharks] in
theorem Sound.withPlan (h : db.Sound) (hkey : keyId ∈ db.keys.map KeyRow.id)
    (hnew : ∀ row ∈ db.nodes, row.keyId ≠ keyId) {nodes : List Planned}
    (hids : nodes.map Planned.id = List.range' db.freshNode nodes.length)
    (hparents : ∀ node ∈ nodes, ∀ q, node.parentId = some q → ∃ other ∈ nodes, other.id = q)
    (hfits : ∀ node ∈ nodes, node.spec.Fits db) (hlabels : (nodes.map fun node => node.spec.label).Nodup)
    (hbridges : (db.withPlan rng keyId nodes).bridges.Nodup) :
    (db.withPlan rng keyId nodes).Sound := by
  have hadded : ∀ {node : Planned}, node ∈ nodes →
      node.row db rng keyId ∈ (db.withPlan rng keyId nodes).nodes := fun hnode =>
    mem_append_right _ (mem_map_of_mem hnode)
  have hnodes : ({ db with nodes := db.nodes ++ nodes.map (Planned.row db rng keyId) } : Store).Sound := by
    refine h.addNodes (pairwise_append.mpr ⟨h.nodeIds, ?_, fun a ha b hb => ?_⟩) (fun row hin => ?_)
      fun a ha b hb hkeyId heq => ?_
    · have hrange : (nodes.map Planned.id).Pairwise (· < ·) := by
        rw [hids]
        exact pairwise_lt_range'
      rw [pairwise_map] at hrange ⊢
      exact hrange.imp fun hlt => by rwa [Planned.row_id, Planned.row_id]
    · obtain ⟨node, hnode, rfl⟩ := mem_map.mp hb
      have hge : node.id ∈ nodes.map Planned.id := mem_map_of_mem hnode
      rw [hids, mem_range'_1] at hge
      rw [Planned.row_id]
      exact Nat.lt_of_lt_of_le (lt_freshId (mem_map_of_mem ha)) hge.1
    · obtain ⟨node, hnode, rfl⟩ := mem_map.mp hin
      refine ⟨?_, row_check (hfits node hnode), fun id => row_hardware (hfits node hnode),
        fun parent hparent => ?_⟩
      · rw [Planned.row_keyId]
        exact hkey
      · rw [Planned.row_parentId] at hparent
        obtain ⟨other, hother, rfl⟩ := hparents node hnode parent hparent
        exact ⟨other.row db rng keyId, hadded hother, by simp⟩
    · obtain ⟨nodeA, hnodeA, rfl⟩ := mem_map.mp ha
      rcases mem_append.mp hb with hb | hb
      · exact absurd (hkeyId.symm.trans (Planned.row_keyId _)) (hnew b hb)
      · obtain ⟨nodeB, hnodeB, rfl⟩ := mem_map.mp hb
        rw [Planned.row_label, Planned.row_label] at heq
        rw [inj_on_of_nodup_map hlabels hnodeA hnodeB heq]
  refine { hnodes with bridgeRows := hbridges, bridgeNodes := fun bridge hbridge => ?_ }
  rcases mem_append.mp hbridge with hbridge | hbridge
  · exact hnodes.bridgeNodes bridge hbridge
  · obtain ⟨node, hnode, hbridge⟩ := mem_flatMap.mp hbridge
    obtain ⟨peer, -, rfl⟩ := mem_map.mp hbridge
    exact mem_map.mpr ⟨_, hadded hnode, Planned.row_id node⟩

/-- **A split keeps the database sound**, and the new tree has the planned rows. -/
theorem Sound.split (h : db.Sound) (hsplit : Store.split rng label secret spec db = (.ok keyId, db')) :
    db'.Sound ∧ db'.treeNodes keyId = (plan rng none db.freshNode secret spec).map
        (Planned.row db rng keyId) := by
  obtain ⟨hvalid, hid, hbridges, rfl, hcomplete⟩ := split_ok hsplit
  have hnew : ∀ row ∈ db.nodes, row.keyId ≠ keyId :=
    fun row hrow => hid ▸ ne_freshId (h.nodeKeys row hrow)
  have hkeys : ({ db with keys := db.keys ++ [{ id := keyId, label }] } : Store).Sound := by
    rw [hid]
    exact h.insertKey label
  have hspecs := plan_specs spec none db.freshNode secret hcomplete
  have hsound := @Sound.withPlan _ rng _ keyId _ hkeys (by simp) hnew _ (plan_ids spec none _ secret)
    (fun node hnode q hq => plan_parent_mem hnode hq)
    (fun node hnode => hvalid.fits _ (hspecs ▸ mem_map_of_mem hnode)) ?_
    (hbridges h.bridgeRows)
  · refine ⟨hsound, ?_⟩
    rw [hsound.treeNodes_eq]
    show (db.nodes ++ _).filter _ = _
    rw [filter_append, filter_eq_nil_iff.mpr, nil_append, filter_eq_self.mpr]
    · rfl
    · intro row hrow
      obtain ⟨node, -, rfl⟩ := mem_map.mp hrow
      simp
    · exact fun row hrow => by simpa using hnew row hrow
  · have hlabels := congrArg (List.map NodeSpec.label) hspecs
    rw [map_map] at hlabels
    rw [show (fun node : Planned => node.spec.label) = NodeSpec.label ∘ Planned.spec from rfl, hlabels]
    exact hvalid.nodup

end Sound

end Store

end Split

end KeyQuorum
