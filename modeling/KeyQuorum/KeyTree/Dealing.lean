/-
  **SPLITTING AND RECONSTRUCTING ARE INVERSE.**

  `Dealt` says of a node of a loaded tree which specification it comes from
  and which secret it was given.  Over it the two walks of the
  reconstruction are compared with the recursive thresholds.
-/
import KeyQuorum.KeyTree.Split
import KeyQuorum.KeyTree.Reconstruct
import KeyQuorum.KeyTree.Bridges

namespace KeyQuorum

open List Foundation
open KeyQuorumTree (getElem?_loadNodes load loadNodes load_ok)

namespace KeyQuorumTree

/-! ## §1. Dealt trees. -/

section Dealt

variable [Sharks]

/-- `Dealt tree rawShares present rng idx spec secret`: node `idx` was created for `spec` and given
`secret`, its children the shares dealt of it; of the leaves, those in `present` are presented with
the share they were given. -/
inductive Dealt (tree : KeyQuorumTree) (rawShares : Nat → Option Bytes) (present : String → Bool)
    (rng : String → Nat) : Nat → NodeSpec → Bytes → Prop where
  | leaf {idx hardwareKeyId : Nat} {label : String} {allowed : List String} {node : KeyNode}
      {secret : Bytes} :
      tree.nodes[idx]? = some node → node.isActive = true →
      node.hardwareKeyId = some hardwareKeyId → node.threshold = none →
      rawShares node.dbId = (if present label then some secret else none) →
      Dealt tree rawShares present rng idx (.leaf label hardwareKeyId allowed) secret
  | split {idx : Nat} {label : String} {threshold : UInt8} {children : List NodeSpec}
      {allowed : List String} {node : KeyNode} {secret : Bytes} :
      tree.nodes[idx]? = some node → node.isActive = true → node.hardwareKeyId = none →
      node.threshold = some threshold.toNat → 0 < threshold.toNat →
      Recovers threshold.toNat secret (rng label) children.length →
      (Sharks.deal threshold.toNat secret (rng label) children.length).length = children.length →
      node.childrenIndices.length = children.length →
      (∀ (i child : Nat) (spec : NodeSpec) (share : Share),
        node.childrenIndices[i]? = some child → children[i]? = some spec →
        (Sharks.deal threshold.toNat secret (rng label) children.length)[i]? = some share →
        Dealt tree rawShares present rng child spec share.toBytes) →
      Dealt tree rawShares present rng idx (.split label threshold children allowed) secret

variable {tree : KeyQuorumTree} {rawShares : Nat → Option Bytes} {present : String → Bool}
  {rng : String → Nat} {secret : Bytes} {spec : NodeSpec} {indices : List Nat}

theorem recover_of_children {threshold : Nat} {seed count : Nat}
    (hrecovers : Recovers threshold secret seed count) (hnodup : indices.Nodup)
    (hlength : (Sharks.deal threshold secret seed count).length = indices.length) {parts : List Part}
    (hidx : (parts.map Part.idx).Nodup) (hparts : ∀ part ∈ parts, ∃ i : Nat, indices[i]? = some part.idx
      ∧ (Sharks.deal threshold secret seed count)[i]? = some part.share)
    (henough : threshold ≤ parts.length) :
    Sharks.recover threshold (parts.map Part.share) = some secret := by
  -- the share of a child, by the child's position
  let shareOf : Nat → Share := fun idx =>
    ((Sharks.deal threshold secret seed count)[indices.idxOf idx]?).getD ⟨0, []⟩
  have hposition : ∀ {i idx : Nat} {share : Share}, indices[i]? = some idx →
      (Sharks.deal threshold secret seed count)[i]? = some share → shareOf idx = share := by
    intro i idx share hi hshare
    obtain ⟨hlt, rfl⟩ := List.getElem?_eq_some_iff.mp hi
    show ((Sharks.deal threshold secret seed count)[indices.idxOf indices[i]]?).getD _ = share
    rw [hnodup.idxOf_getElem i hlt, hshare]
    rfl
  have hdeal : indices.map shareOf = Sharks.deal threshold secret seed count := by
    refine ext_getElem (by rw [length_map, hlength]) fun i hi hi' => ?_
    rw [getElem_map]
    rw [length_map] at hi
    exact hposition (getElem?_eq_getElem hi) (getElem?_eq_getElem hi')
  have hshares : parts.map Part.share = (parts.map Part.idx).map shareOf := by
    rw [map_map]
    refine map_congr_left fun part hpart => ?_
    obtain ⟨i, hi, hshare⟩ := hparts part hpart
    exact (hposition hi hshare).symm
  refine hrecovers.recover _ ?_ (by rwa [length_map])
  rw [hshares, ← hdeal]
  have hsubset : parts.map Part.idx ⊆ indices := by
    intro idx hin
    obtain ⟨part, hpart, rfl⟩ := mem_map.mp hin
    obtain ⟨i, hi, -⟩ := hparts part hpart
    exact mem_of_getElem? hi
  obtain ⟨order, hperm, hsub⟩ := subperm_of_subset hidx hsubset
  exact ⟨order.map shareOf, hperm.map shareOf, hsub.map shareOf⟩

variable {idx : Nat}

theorem share_roundtrip {threshold : Nat} {seed count : Nat}
    (hrecovers : Recovers threshold secret seed count) (hne : secret ≠ []) {i : Nat} {share : Share}
    (h : (Sharks.deal threshold secret seed count)[i]? = some share) :
    Share.ofBytes share.toBytes = some share ∧ share.toBytes ≠ [] := by
  refine ⟨Share.ofBytes_toBytes fun hy => ?_, by unfold Share.toBytes; simp⟩
  have hwidth := hrecovers.width share (mem_of_getElem? h)
  rw [hy] at hwidth
  exact hne (length_eq_zero_iff.mp hwidth.symm)

omit [Sharks] in
theorem child_position {children : List NodeSpec} {shares : List Share}
    (hindices : indices.length = children.length) (hshares : shares.length = children.length)
    (h : idx ∈ indices) :
    ∃ (i : Nat) (spec : NodeSpec) (share : Share), indices[i]? = some idx
      ∧ children[i]? = some spec ∧ shares[i]? = some share := by
  obtain ⟨i, hi, rfl⟩ := getElem_of_mem h
  exact ⟨i, _, _, getElem?_eq_getElem hi, getElem?_eq_getElem (by omega), getElem?_eq_getElem (by omega)⟩

/-- **Whatever selections are combined at a node, the value is the node's secret.** -/
theorem Dealt.value (harena : Arena tree) {value : Bytes}
    {leaves : List UsedLeaf} (h : Dealt tree rawShares present rng idx spec secret)
    (hne : secret ≠ []) (hcombined : Combined tree rawShares idx value leaves) : value = secret := by
  induction hcombined generalizing spec secret with
  | @leaf idx hardwareKeyId node share hnode hkey hshare =>
    cases h with
    | leaf hnode' _ _ _ hraw =>
      obtain rfl := Option.mem_unique hnode hnode'
      rw [hshare] at hraw
      split at hraw
      · exact Option.some.inj hraw
      · cases hraw
    | split hnode' _ hsplit =>
      obtain rfl := Option.mem_unique hnode hnode'
      rw [hkey] at hsplit
      cases hsplit
  | @split idx threshold node parts value hnode hthreshold hpick _ _ hshares hlength hpos hrecover ih =>
      cases h with
      | leaf hnode' _ _ hleaf =>
        obtain rfl := Option.mem_unique hnode hnode'
        rw [hthreshold] at hleaf
        cases hleaf
      | @split _ label threshold' children allowed _ _ hnode' _ _ hthreshold' _ hrecovers hdeal hindices
          hchildren =>
          obtain rfl := Option.mem_unique hnode hnode'
          obtain rfl := Option.mem_unique hthreshold hthreshold'
          have hresult := recover_of_children hrecovers (harena.nodup hnode)
            (hdeal.trans hindices.symm) hpick.1 (fun part hpart => ?_) (Nat.le_of_eq hlength.symm)
          · rw [Nat.mod_eq_of_lt threshold'.toNat_lt] at hrecover
            exact Option.mem_unique hrecover hresult
          · obtain ⟨i, childSpec, share, hi, hspec, hshare⟩ :=
              child_position hindices hdeal (hpick.2 (mem_map_of_mem hpart))
            obtain ⟨hround, hbytes⟩ := share_roundtrip hrecovers hne hshare
            have hvalue := ih part hpart (hchildren i _ _ _ hi hspec hshare) hbytes
            have hsame := hshares part hpart
            rw [hvalue, hround] at hsame
            exact ⟨i, hi, hshare.trans hsame⟩

variable [Crypto] {depth : Nat}

theorem partOf_isSome {share : Share} (hround : Share.ofBytes share.toBytes = some share)
    (hmet : spec.satisfied present →
      ∃ leaves, tree.reconstructNode rawShares none depth child = .ok (share.toBytes, leaves))
    (hfail : spec.satisfied present = false →
      tree.reconstructNode rawShares none depth child = .error .quorumNotMet) :
    (partOf (tree.reconstructNode rawShares none depth child) child).isSome
      = spec.satisfied present := by
  cases hspec : spec.satisfied present with
  | true =>
    obtain ⟨leaves, hok⟩ := hmet hspec
    rw [hok]
    unfold partOf
    dsimp only
    rw [hround]
    rfl
  | false =>
    rw [hfail hspec]
    rfl

omit [Crypto] in
theorem Dealt.active (h : Dealt tree rawShares present rng idx spec secret) : tree.activeAt idx := by
  unfold activeAt
  cases h with
  | leaf hnode hactive => rw [hnode]; exact hactive
  | split hnode hactive => rw [hnode]; exact hactive

/-- **The walk down without a policy succeeds exactly if the presented leaves meet the
thresholds.** -/
theorem Dealt.reconstructs (harena : Arena tree) (h : Dealt tree rawShares present rng idx spec secret)
    (hne : secret ≠ []) (hwalked : tree.Walked idx depth) :
    (spec.satisfied present →
        ∃ leaves, tree.reconstructNode rawShares none depth idx = .ok (secret, leaves))
      ∧ (spec.satisfied present = false →
        tree.reconstructNode rawShares none depth idx = .error .quorumNotMet) := by
  induction h generalizing depth with
  | @leaf idx hardwareKeyId label allowed node secret hnode hactive hkey _ hraw =>
    obtain ⟨depth, rfl⟩ := hwalked.depth_pos harena
    unfold reconstructNode NodeSpec.satisfied
    cases hpresent : present label <;>
      simp [hnode, hactive, hkey, hraw, hpresent]
  | @split idx label threshold children allowed node secret hnode hactive hkey hthreshold hpos
      hrecovers hdeal hindices hchildren ih =>
      obtain ⟨depth, rfl⟩ := hwalked.depth_pos harena
      have hround := fun {i share} => @share_roundtrip _ _ _ _ _ hrecovers hne i share
      have hchild : ∀ {i : Nat} {child : Nat} {spec : NodeSpec} {share : Share},
          node.childrenIndices[i]? = some child → children[i]? = some spec →
          (Sharks.deal threshold.toNat secret (rng label) children.length)[i]? = some share →
          tree.activeAt child
            ∧ (partOf (tree.reconstructNode rawShares none depth child) child).isSome
              = spec.satisfied present := by
        intro i child spec share hi hspec hshare
        have hup := (harena.mem_children hnode).mp (mem_of_getElem? hi)
        have hchildActive := (hchildren i child spec share hi hspec hshare).active
        obtain ⟨hmet, hfail⟩ := ih i child spec share hi hspec hshare (hround hshare).2
          (.child hup hchildActive hwalked)
        exact ⟨hchildActive, partOf_isSome (hround hshare).1 hmet hfail⟩
      have hcount : (childParts tree rawShares none depth node).length
          = NodeSpec.countSatisfied present children := by
        unfold childParts
        rw [length_filterMap_eq_countP, NodeSpec.countSatisfied_eq]
        have hmap : node.childrenIndices.map (fun child =>
            (if tree.activeAt child = true then
              partOf (tree.reconstructNode rawShares none depth child) child else none).isSome)
            = children.map (NodeSpec.satisfied present) := by
          refine ext_getElem (by rw [length_map, length_map, hindices])
            fun i hi hi' => ?_
          rw [length_map] at hi hi'
          rw [getElem_map, getElem_map]
          obtain ⟨hact, hsome⟩ := hchild (getElem?_eq_getElem hi)
            (getElem?_eq_getElem hi') (getElem?_eq_getElem (by omega))
          rw [if_pos hact, hsome]
        have hcongr := congrArg (List.countP id) hmap
        rw [countP_map, countP_map] at hcongr
        exact hcongr
      have hwalk : tree.reconstructNode rawShares none (depth + 1) idx
          = (selectChildSubset none threshold.toNat
              ((childParts tree rawShares none depth node).map Part.resolved) >>= fun picked =>
            recoverAt threshold.toNat picked.1 >>= fun value => pure (value, picked.2)) := by
        rw [reconstructNode]
        simp only [hnode, hactive, hkey, hthreshold, childParts_resolved, Bool.not_true]
        rfl
      rw [hwalk]
      unfold selectChildSubset NodeSpec.satisfied
      rw [length_map, hcount]
      constructor
      · intro hmet
        rw [decide_eq_true_eq] at hmet
        rw [if_neg (by simp; omega), except_ok_bind, ← map_take, flattenChildren_resolved]
        have hresult := recover_of_children hrecovers (harena.nodup hnode) (hdeal.trans hindices.symm)
          (((harena.nodup hnode).sublist (childParts_idx_sublist depth node)).sublist
            ((take_sublist threshold.toNat (childParts tree rawShares none depth node)).map Part.idx))
          (fun part hpart => ?_) (by rw [length_take, hcount]; omega)
        · unfold recoverAt
          rw [Nat.mod_eq_of_lt threshold.toNat_lt, hresult]
          exact ⟨_, rfl⟩
        · obtain ⟨hin, -, hok, hshare⟩ := mem_childParts (mem_of_mem_take hpart)
          obtain ⟨i, spec, share, hi, hspec, hdealt⟩ := child_position hindices hdeal hin
          obtain ⟨hbytes, hne'⟩ := hround hdealt
          have hvalue := (hchildren i _ _ _ hi hspec hdealt).value harena hne'
            ((reconstructNode_chosen _ hok).1.combined harena)
          rw [hvalue, hbytes] at hshare
          exact ⟨i, hi, hdealt.trans hshare⟩
      · intro hfail
        rw [decide_eq_false_iff_not] at hfail
        rw [if_pos (by simp; omega)]
        rfl

end Dealt

/-! ## §2. Positions of children in a plan. -/

section Positions

variable [Sharks] {rng : String → Nat} {parent : Nat}

/-- The positions, counted from `k`, of the nodes with a given parent. -/
def positions (parent k : Nat) (nodes : List Planned) : List Nat :=
  ((nodes.zipIdx k).filter fun entry => entry.1.parentId = some parent).map Prod.snd

section

omit [Sharks]

theorem positions_append (parent k : Nat) (first second : List Planned) :
    positions parent k (first ++ second)
      = positions parent k first ++ positions parent (k + first.length) second := by
  unfold positions
  rw [zipIdx_append, filter_append, map_append]

theorem positions_eq_nil {nodes : List Planned} (h : ∀ node ∈ nodes, node.parentId ≠ some parent)
    (k : Nat) : positions parent k nodes = [] := by
  unfold positions
  rw [map_eq_nil_iff, filter_eq_nil_iff]
  intro entry hentry
  rw [decide_eq_true_eq]
  exact h entry.1 (fst_mem_of_mem_zipIdx hentry)

theorem positions_cons (parent k : Nat) (node : Planned) (rest : List Planned) :
    positions parent k (node :: rest)
      = (if node.parentId = some parent then [k] else []) ++ positions parent (k + 1) rest := by
  unfold positions
  rw [zipIdx_cons, filter_cons]
  by_cases h : node.parentId = some parent <;> simp [h]

end

theorem positions_plan {start : Nat} (hstart : parent < start) (child : NodeSpec) (secret : Bytes)
    (k : Nat) : positions parent k (plan rng (some parent) start secret child) = [k] := by
  obtain ⟨tail, hplan, htail⟩ := @plan_cases _ rng child (some parent) start secret
  rw [hplan, positions_cons, if_pos rfl, positions_eq_nil]
  · rfl
  · intro node hnode hparent
    obtain ⟨q, hq, hle, -⟩ := htail node hnode
    have := Option.mem_unique hq hparent
    omega

end Positions

/-! ## §3. The rows of a split. -/

section Rows

variable [Sharks] [SealedBoxes] {rng : String → Nat}

omit [Sharks] [SealedBoxes] in
theorem rowIndex_consecutive (hids : rows.map NodeRow.id = List.range' base rows.length) {id : Nat} :
    rowIndex rows id = some i ↔ id = base + i ∧ i < rows.length := by
  have hget : ∀ (j : Nat) (hj : j < rows.length), (rows[j]).id = base + j := by
    intro j hj
    have h := congrArg (fun l => l[j]?) hids
    simpa [getElem?_map, getElem?_eq_getElem hj, getElem?_range' hj] using h
  unfold rowIndex
  rw [findIdx?_eq_some_iff_getElem]
  constructor
  · rintro ⟨hi, hid, -⟩
    rw [decide_eq_true_eq, hget i hi] at hid
    exact ⟨hid.symm, hi⟩
  · rintro ⟨rfl, hi⟩
    refine ⟨hi, by rw [decide_eq_true_eq, hget i hi], fun j hj => ?_⟩
    rw [hget j (by omega)]
    simp only [decide_eq_true_eq]
    omega

structure Whole (tree : KeyQuorumTree) (rawShares : Nat → Option Bytes) (present : String → Bool)
    (rng : String → Nat) (base : Nat) (nodes : List Planned) : Prop where
  ids : nodes.map Planned.id = List.range' base nodes.length
  loaded : ∃ db keyId bridges, tree.nodes = loadNodes (nodes.map (Planned.row db rng keyId)) bridges
  fits : ∃ db, ∀ node ∈ nodes, node.spec.Fits db
  complete : ∃ db, ∀ node ∈ nodes, node.Complete db rng
  recovers : ∀ node ∈ nodes, ∀ dealing, node.dealing rng = some dealing → dealing.Recovers
  shares : ∀ node ∈ nodes, ∀ label hardwareKeyId allowed, node.spec = .leaf label hardwareKeyId allowed →
    rawShares node.id = if present label then some node.secret else none

variable {tree : KeyQuorumTree} {rawShares : Nat → Option Bytes} {present : String → Bool}
  {base : Nat} {nodes : List Planned}

theorem Whole.node (h : Whole tree rawShares present rng base nodes) {i : Nat} {planned : Planned}
    (hi : nodes[i]? = some planned) :
    ∃ db keyId node, tree.nodes[i]? = some node ∧ node.dbId = planned.id ∧ node.isActive
      ∧ node.hardwareKeyId = (planned.row db rng keyId).hardwareKeyId
      ∧ node.threshold = (planned.row db rng keyId).threshold
      ∧ node.childrenIndices = positions (base + i) 0 nodes := by
  obtain ⟨db, keyId, bridges, hload⟩ := h.loaded
  have hilt := (List.getElem?_eq_some_iff.mp hi).1
  have hrows : (nodes.map (Planned.row db rng keyId)).map NodeRow.id
      = List.range' base (nodes.map (Planned.row db rng keyId)).length := by
    rw [map_map, length_map, ← h.ids]
    exact map_congr_left fun node _ => Planned.row_id node
  refine ⟨db, keyId, keyNode (nodes.map (Planned.row db rng keyId)) bridges
    (planned.row db rng keyId) i, ?_, ?_, ?_, rfl, rfl, ?_⟩
  · rw [hload, getElem?_loadNodes, getElem?_map, hi]
    rfl
  · exact Planned.row_id planned
  · exact Planned.row_isActive planned
  · show childIndices (nodes.map (Planned.row db rng keyId)) i = _
    unfold childIndices positions
    rw [length_map]
    have hsnd : (nodes.zipIdx 0).map Prod.snd = List.range nodes.length := by
      rw [zipIdx_map_snd, range_eq_range']
    rw [← hsnd, filter_map]
    congr 1
    refine filter_congr fun entry hentry => ?_
    -- an entry of the zip is the node at its position
    have hget := mem_zipIdx_iff_getElem?.mp hentry
    rw [Function.comp_apply, decide_eq_decide]
    unfold parentIndex
    rw [getElem?_map, hget]
    show ((entry.1.row db rng keyId).parentId).bind _ = some i ↔ _
    rw [Planned.row_parentId, Option.bind_eq_some_iff]
    constructor
    · rintro ⟨q, hq, hindex⟩
      rw [hq, ((rowIndex_consecutive hrows).mp hindex).1]
    · intro hq
      exact ⟨base + i, hq, (rowIndex_consecutive hrows).mpr ⟨rfl, by rwa [length_map]⟩⟩

def Closed (outside : List Planned) (start count : Nat) : Prop :=
  ∀ node ∈ outside, ∀ q, node.parentId = some q → q < start ∨ start + count ≤ q

section

omit [Sharks] [SealedBoxes]

variable {outside : List Planned} {start count : Nat}

theorem closed_append :
    Closed (outside ++ others) start count ↔ Closed outside start count ∧ Closed others start count :=
  forall_mem_append

theorem Closed.within (h : Closed outside start count) (hstart : start ≤ start')
    (hend : start' + count' ≤ start + count) : Closed outside start' count' := by
  intro node hnode q hq
  have := h node hnode q hq
  omega

end

def BlockDealt (tree : KeyQuorumTree) (rawShares : Nat → Option Bytes) (present : String → Bool)
    (rng : String → Nat) (base : Nat) (nodes : List Planned) (spec : NodeSpec) : Prop :=
  ∀ (parentId : Option Nat) (secret : Bytes) (before after : List Planned),
    nodes = before ++ plan rng parentId (base + before.length) secret spec ++ after →
    Closed (before ++ after) (base + before.length)
      (plan rng parentId (base + before.length) secret spec).length →
    (∀ q, parentId = some q → q < base + before.length) →
    Dealt tree rawShares present rng before.length spec secret

omit [SealedBoxes] in
theorem children_dealt {children : List NodeSpec} {shares : List Share} {parent : Nat}
    (hblocks : ∀ child ∈ children, BlockDealt tree rawShares present rng base nodes child)
    (hlength : shares.length = children.length) {before after : List Planned}
    (hnodes : nodes = before ++ planAll rng parent (base + before.length) children shares ++ after)
    (hclosed : Closed (before ++ after) (base + before.length)
      (planAll rng parent (base + before.length) children shares).length)
    (hparent : parent < base + before.length) :
    (positions parent before.length
        (planAll rng parent (base + before.length) children shares)).length = children.length
      ∧ ∀ (i child : Nat) (spec : NodeSpec) (share : Share), (positions parent before.length
          (planAll rng parent (base + before.length) children shares))[i]? = some child →
        children[i]? = some spec → shares[i]? = some share →
        Dealt tree rawShares present rng child spec share.toBytes := by
  induction children generalizing shares before with
  | nil =>
    rw [planAll]
    · exact ⟨rfl, fun i child spec share _ h => absurd h (by simp)⟩
    · simp
  | cons child rest ih =>
    cases shares with
    | nil => cases hlength
    | cons share shares =>
      rw [planAll] at hnodes hclosed ⊢
      generalize hblock : plan rng (some parent) (base + before.length) share.toBytes child
        = block at hnodes hclosed ⊢
      have hstart : base + before.length + block.length = base + (before ++ block).length := by
        rw [length_append]
        omega
      rw [hstart] at hnodes hclosed ⊢
      have hrest := @planAll_parents _ rng rest (fun c _ => plan_cases c) shares parent
        (base + (before ++ block).length) (by omega)
      have hlen := @length_append _ block
        (planAll rng parent (base + (before ++ block).length) rest shares)
      have hlen' := @length_append _ before block
      rw [hlen] at hclosed
      obtain ⟨hbefore, hafter⟩ := closed_append.mp hclosed
      have hfirst : Dealt tree rawShares present rng before.length child share.toBytes := by
        refine hblocks child (.head _) (some parent) share.toBytes before
          (planAll rng parent (base + (before ++ block).length) rest shares ++ after) ?_ ?_ ?_
        · rw [hblock, hnodes]
          simp
        · rw [hblock]
          refine closed_append.mpr ⟨hbefore.within (Nat.le_refl _) (by omega), closed_append.mpr
            ⟨fun node hnode q hq => ?_, hafter.within (Nat.le_refl _) (by omega)⟩⟩
          obtain ⟨q', hq', hor, -⟩ := hrest node hnode
          obtain rfl := Option.mem_unique hq hq'
          omega
        · intro q hq
          rwa [← Option.some.inj hq]
      have hlater := @ih shares (fun c hc => hblocks c (.tail _ hc))
        (by simpa using hlength) (before ++ block)
        (by rw [hnodes]; simp only [append_assoc]) ?_ (by omega)
      · rw [positions_append, ← hblock, positions_plan hparent, hblock, ← hlen',
          singleton_append, length_cons, length_cons, hlater.1]
        refine ⟨rfl, fun i c spec s hi hspec hs => ?_⟩
        cases i with
        | zero =>
          obtain rfl : before.length = c := Option.some.inj hi
          obtain rfl : child = spec := Option.some.inj hspec
          obtain rfl : share = s := Option.some.inj hs
          exact hfirst
        | succ i => exact hlater.2 i c spec s hi hspec hs
      · refine closed_append.mpr ⟨closed_append.mpr ⟨hbefore.within (by omega) (by omega),
          fun node hnode q hq => ?_⟩, hafter.within (by omega) (by omega)⟩
        rw [← hblock] at hnode
        rcases mem_plan hnode with rfl | ⟨q', hq', hle, hlt, -⟩
        · cases hq
          omega
        · obtain rfl := Option.mem_unique hq hq'
          rw [hblock] at hlt
          omega

/-- **The rows of a split are dealt.** -/
theorem dealt_of_plan (h : Whole tree rawShares present rng base nodes) (spec : NodeSpec) :
    BlockDealt tree rawShares present rng base nodes spec := by
  induction spec using NodeSpec.induct with
  | leaf label hardwareKeyId allowed =>
    intro parentId secret before after hnodes _ _
    have hget : nodes[before.length]? = some ⟨base + before.length, parentId,
        .leaf label hardwareKeyId allowed, secret⟩ := by
      rw [hnodes, plan]
      simp
    obtain ⟨db, keyId, node, hnode, hid, hactive, hkey, hthreshold, -⟩ := h.node hget
    refine .leaf hnode hactive hkey hthreshold ?_
    rw [hid]
    exact h.shares _ (mem_of_getElem? hget) label hardwareKeyId allowed rfl
  | split label threshold children allowed ih =>
    intro parentId secret before after hnodes hclosed hparent
    rw [plan] at hnodes hclosed
    generalize hshares : Sharks.deal threshold.toNat secret (rng label) children.length = shares
      at hnodes hclosed
    generalize hhead : (⟨base + before.length, parentId,
      .split label threshold children allowed, secret⟩ : Planned) = head at hnodes hclosed
    have hget : nodes[before.length]? = some head := by
      rw [hnodes]
      simp
    have hmem := mem_of_getElem? hget
    obtain ⟨db, keyId, node, hnode, hid, hactive, hkey, hthreshold, hpositions⟩ := h.node hget
    obtain ⟨_, hall⟩ := h.complete
    have hcomplete := hall head hmem
    have hrecovers := h.recovers head hmem
    obtain ⟨db', hfits⟩ := h.fits
    have hfit := hfits head hmem
    replace hrecovers := hrecovers _ (by rw [← hhead]; rfl)
    rw [← hhead] at hkey hthreshold hcomplete hfit
    replace hcomplete : shares.length = children.length := by
      rw [← hshares]
      exact hcomplete
    have hstart : base + before.length + 1 = base + (before ++ [head]).length := by
      rw [length_append, length_singleton]
      omega
    rw [hstart] at hnodes hclosed
    rw [length_cons] at hclosed
    have hlen := @length_append _ before [head]
    rw [length_singleton] at hlen
    have hheadParent : head.parentId = parentId := by rw [← hhead]
    obtain ⟨hout, hout'⟩ := closed_append.mp hclosed
    obtain ⟨hcount, hchildren⟩ := @children_dealt _ rng tree rawShares present base nodes children
      shares (base + before.length) ih hcomplete (before ++ [head]) after
      (by rw [hnodes]; simp only [append_assoc, cons_append, nil_append])
      (closed_append.mpr ⟨closed_append.mpr ⟨hout.within (by omega) (by omega), fun other hother q hq => by
        rw [mem_singleton.mp hother, hheadParent] at hq
        have := hparent q hq
        omega⟩, hout'.within (by omega) (by omega)⟩)
      (by omega)
    -- the children of the node, among all nodes, are those of its own blocks
    have hall : node.childrenIndices = positions (base + before.length) (before ++ [head]).length
        (planAll rng (base + before.length) (base + (before ++ [head]).length) children shares) := by
      have hbefore : ∀ k, positions (base + before.length) k before = [] :=
        positions_eq_nil fun other hother hq => by
          have := hout other hother _ hq
          omega
      have hafter : ∀ k, positions (base + before.length) k after = [] :=
        positions_eq_nil fun other hother hq => by
          have := hout' other hother _ hq
          omega
      have hnot : ¬ head.parentId = some (base + before.length) := by
        rw [hheadParent]
        intro hq
        have := hparent _ hq
        omega
      rw [hpositions, hnodes, positions_append, positions_append, positions_cons, if_neg hnot,
        hbefore, hafter, nil_append, nil_append, append_nil, Nat.zero_add, hlen]
    rw [← hall] at hcount hchildren
    refine .split hnode hactive hkey hthreshold hfit.1 hrecovers ?_ hcount ?_
    · rw [hshares]
      exact hcomplete
    · rw [hshares]
      exact hchildren

end Rows

end KeyQuorumTree

namespace Store

/-! ## §4. Loading what was split. -/

section Presented

variable [Crypto] [Sharks] [SealedBoxes] {rng : String → Nat} {db db' : Store} {keyId : Nat}

/-- The raw shares are those of the leaves in `present`, as they were dealt, and no others. -/
def Presents (db : Store) (keyId : Nat) (present : String → Bool) (shares : String → Option Bytes)
    (rawShares : Nat → Option Bytes) : Prop :=
  ∀ row ∈ db.treeNodes keyId, row.hardwareKeyId.isSome = true →
    rawShares row.id = if present row.label then shares row.label else none

instance (db : Store) (keyId : Nat) (present : String → Bool) (shares : String → Option Bytes)
    (rawShares : Nat → Option Bytes) : Decidable (db.Presents keyId present shares rawShares) :=
  inferInstanceAs (Decidable (∀ row ∈ db.treeNodes keyId, _))

variable {secret : Bytes} {spec : NodeSpec} {base : Nat} {node : Planned}

omit [Crypto] [SealedBoxes] in
theorem plan_same (hnode : node ∈ plan rng parentId base secret spec) :
    ∃ other ∈ plan rng none 0 secret spec, other.spec = node.spec ∧ other.secret = node.secret := by
  have hin := mem_map_of_mem (f := fun node : Planned => (node.spec, node.secret)) hnode
  rw [plan_secrets spec parentId none base 0 secret] at hin
  obtain ⟨other, hother, heq⟩ := mem_map.mp hin
  exact ⟨other, hother, Prod.mk.inj heq⟩

omit [Crypto] [SealedBoxes] in
theorem mem_dealings (hnode : node ∈ plan rng parentId base secret spec)
    (hdealing : node.dealing rng = some dealing) : dealing ∈ dealings rng secret spec := by
  obtain ⟨other, hother, hspec, hsecret⟩ := plan_same hnode
  refine mem_filterMap.mpr ⟨other, hother, ?_⟩
  rw [← hdealing]
  unfold Planned.dealing
  rw [hspec, hsecret]

omit [Crypto] in
theorem dealtShare_of_mem (hcomplete : ∀ node ∈ plan rng parentId base secret spec, node.Complete db rng)
    (hnodup : spec.labels.Nodup) (hnode : node ∈ plan rng parentId base secret spec) :
    dealtShare rng secret spec node.spec.label = some node.secret := by
  obtain ⟨other, hother, hspec, hsecret⟩ := plan_same hnode
  have hlabels : ((plan rng none 0 secret spec).map fun node => node.spec.label).Nodup := by
    have h := congrArg (List.map fun entry => entry.1.label)
      (@plan_secrets _ rng spec parentId none base 0 secret)
    rw [map_map, map_map] at h
    have hspecs := congrArg (List.map NodeSpec.label) (plan_specs spec parentId base secret hcomplete)
    rw [map_map] at hspecs
    unfold NodeSpec.labels at hnodup
    rw [← hspecs] at hnodup
    exact (congrArg List.Nodup h).mp hnodup
  unfold dealtShare
  rw [find?_of_unique hother (by simp [hspec]) fun found hfound hlabel =>
    inj_on_of_nodup_map hlabels hfound hother (by simpa [hspec] using hlabel)]
  exact congrArg some hsecret

omit [Crypto] in
/-- A leaf's row holds what the leaf was given, sealed to its key. -/
theorem row_sealed (hcomplete : node.Complete db rng) {id : Nat}
    (h : (node.row db rng keyId).hardwareKeyId = some id) :
    ∃ hardwareKey, ∃ key : Digest, db.getActiveEncryptionKey id = .ok hardwareKey
      ∧ hardwareKey.publicKey = key.bytes
      ∧ (node.row db rng keyId).wrappedShare
        = some (SealedBoxes.sealWith key (rng node.spec.label) node.secret) := by
  unfold Planned.row at h ⊢
  unfold Planned.Complete Planned.sealed at hcomplete
  split at h
  next label hardwareKeyId allowed hspec =>
    obtain rfl : hardwareKeyId = id := Option.some.inj h
    simp only [hspec] at hcomplete ⊢
    unfold Planned.sealed
    cases hkey : db.getActiveEncryptionKey hardwareKeyId with
    | error e => simp [hkey, Except.toOption] at hcomplete
    | ok hardwareKey =>
      by_cases hlength : hardwareKey.publicKey.length = 32
      · exact ⟨hardwareKey, ⟨_, hlength⟩, rfl, rfl, by simp [Except.toOption, sealShare, hlength, NodeSpec.label]⟩
      · simp [hkey, Except.toOption, sealShare, hlength] at hcomplete
  next => cases h

/-- **Splitting and reconstructing are inverse.**  A split gives every leaf its dealt share, sealed to the
leaf's key.  With the dealt shares of any set of leaves the tree gives the secret back if the set meets the
recursive thresholds, and no secret if it does not; and from whatever node the climb starts, what it returns
is the secret. -/
theorem split_reconstructs (hsound : db.Sound) {label : String} {secret : Bytes} {spec : NodeSpec}
    (hsplit : split rng label secret spec db = (.ok keyId, db')) (hne : secret ≠ [])
    (hrecovers : ∀ dealing ∈ dealings rng secret spec, dealing.Recovers) {present : String → Bool}
    {rawShares : Nat → Option Bytes}
    (hpresents : db'.Presents keyId present (dealtShare rng secret spec) rawShares) :
    (∀ row ∈ db'.treeNodes keyId, ∀ id, row.hardwareKeyId = some id → ∃ hardwareKey share, ∃ key : Digest,
        db.getActiveEncryptionKey id = .ok hardwareKey ∧ hardwareKey.publicKey = key.bytes
          ∧ dealtShare rng secret spec row.label = some share
          ∧ row.wrappedShare = some (SealedBoxes.sealWith key (rng row.label) share))
      ∧ ∃ tree, load db' keyId = .ok tree ∧ tree.reconstruct rawShares
        = (if spec.satisfied present then .ok secret else .error .quorumNotMet)
      ∧ ∀ start value leaves,
        tree.reconstructUpToRoot rawShares none start = .ok (value, leaves) → value = secret := by
  obtain ⟨hsound', hrows⟩ := hsound.split hsplit
  obtain ⟨hvalid, -, -, -, hcomplete⟩ := split_ok hsplit
  generalize db.freshNode = base at hrows hcomplete
  have hspecs := plan_specs spec none base secret hcomplete
  obtain ⟨tail, hplan, htail⟩ := @plan_cases _ rng spec none base secret
  have hhead : (Planned.row db rng keyId ⟨base, none, spec, secret⟩) ∈ db'.treeNodes keyId := by
    rw [hrows, hplan]
    exact .head _
  obtain ⟨hin, hkey⟩ := mem_treeNodes.mp hhead
  obtain ⟨tree, hload⟩ := hsound'.load_of_root hin hkey (Planned.row_parentId _)
  have hloaded := load_ok hload
  have harena := hloaded.arena
  have hnodes : tree.nodes = loadNodes
      ((plan rng none base secret spec).map (Planned.row db rng keyId)) db'.bridges := by
    rw [hloaded.nodes, hrows]
  -- the only node without a parent is the first
  have hzero : ∀ {root node}, tree.nodes[root]? = some node → tree.up root = none → root = 0 := by
    intro root node hnode hup
    rw [hnodes, getElem?_loadNodes] at hnode
    obtain ⟨row, hrow, -⟩ := Option.map_eq_some_iff.mp hnode
    have hnone := hloaded.parentId_none (by rw [hrows]; exact hrow) hup
    rw [hplan] at hrow
    cases root with
    | zero => rfl
    | succ i =>
      rw [map_cons, getElem?_cons_succ] at hrow
      obtain ⟨planned, hin, rfl⟩ := mem_map.mp (mem_of_getElem? hrow)
      rw [Planned.row_parentId] at hnone
      obtain ⟨q, hq, -⟩ := htail planned hin
      rw [hnone] at hq
      cases hq
  have hroot : tree.rootIndex = 0 := by
    obtain ⟨node, hnode, -⟩ := hloaded.root
    exact hzero hnode harena.up_root
  have hwhole : KeyQuorumTree.Whole tree rawShares present rng base
      (plan rng none base secret spec) := by
    refine ⟨plan_ids spec none base secret, ⟨db, keyId, db'.bridges, hnodes⟩,
      ⟨db, fun node hnode => hvalid.fits _ (hspecs ▸ mem_map_of_mem hnode)⟩, ⟨db, hcomplete⟩,
      fun node hnode dealing hdealing => ?_, fun node hnode leafLabel hardwareKeyId allowed hleaf => ?_⟩
    · exact hrecovers dealing (mem_dealings hnode hdealing)
    · have hrow : node.row db rng keyId ∈ db'.treeNodes keyId := by
        rw [hrows]
        exact mem_map_of_mem hnode
      have hshare := dealtShare_of_mem hcomplete hvalid.nodup hnode
      have hpresent := hpresents _ hrow (by unfold Planned.row; rw [hleaf]; rfl)
      rw [Planned.row_id, Planned.row_label, hshare, hleaf] at hpresent
      exact hpresent
  have hdealt : KeyQuorumTree.Dealt tree rawShares present rng 0 spec secret := by
    refine KeyQuorumTree.dealt_of_plan hwhole spec none secret [] [] (by simp) ?_ ?_
    · exact nofun
    · exact fun q hq => absurd hq (by simp)
  refine ⟨fun row hrow id hid => ?_, tree, hload, ?_, fun start value leaves hclimb => ?_⟩
  · rw [hrows] at hrow
    obtain ⟨node, hnode, rfl⟩ := mem_map.mp hrow
    obtain ⟨hardwareKey, key, hkey, hbytes, hwrapped⟩ := row_sealed (hcomplete node hnode) hid
    rw [Planned.row_label]
    exact ⟨hardwareKey, node.secret, key, hkey, hbytes, dealtShare_of_mem hcomplete hvalid.nodup hnode, hwrapped⟩
  · have hwalked := KeyQuorumTree.Walked.root (hroot ▸ hdealt.active)
    rw [hroot] at hwalked
    obtain ⟨hmet, hfail⟩ := hdealt.reconstructs harena hne hwalked
    unfold KeyQuorumTree.reconstruct
    rw [hroot]
    cases hspec : spec.satisfied present with
    | true =>
      obtain ⟨leaves, hok⟩ := hmet hspec
      rw [hok]
      rfl
    | false =>
      rw [hfail hspec]
      rfl
  · have hactive : ¬ tree.Spoiled start leaves := by
      refine KeyQuorumTree.not_spoiled_of_active (fun node hmem => ?_) _ _
      obtain ⟨i, hnode⟩ := mem_iff_getElem?.mp hmem
      rw [hnodes, getElem?_loadNodes] at hnode
      obtain ⟨row, hrow, rfl⟩ := Option.map_eq_some_iff.mp hnode
      obtain ⟨planned, -, rfl⟩ := mem_map.mp (mem_of_getElem? hrow)
      exact Planned.row_isActive planned
    obtain ⟨root, hup, hline, hclimbed⟩ := KeyQuorumTree.reconstructUpToRoot_combined harena hclimb
    have hcombined := hclimbed.resolve_right hactive
    obtain ⟨node, hnode⟩ := hcombined.node
    obtain rfl := hzero hnode hup
    exact hdealt.value harena hne hcombined

end Presented

/-! ## §5. A tree of two levels. -/

namespace Sample

section TwoLevels

attribute [local instance] keyCrypto Sharks.gf256 SealedBoxes.toy

def registry : Store where
  hardwareKeys := [memberKey 1 "M.A.1", memberKey 2 "M.A.2", memberKey 3 "M.B"]

/-- Both children of the root are needed, either leaf of the branch is enough. -/
def twoLevels : NodeSpec :=
  .split "M" 2 [.split "M.A" 1 [.leaf "M.A.1" 1 [], .leaf "M.A.2" 2 []] [], .leaf "M.B" 3 []] []

def dice (label : String) : Nat := label.length

def twoLevelStore : Store := (split dice "org" [42] twoLevels registry).2

def secondAndLast (label : String) : Bool := label = "M.A.2" || label = "M.B"

def secondAndLastShares (id : Nat) : Option Bytes :=
  ((twoLevelStore.treeNodes 1).find? fun row => row.id = id).bind fun row =>
    if secondAndLast row.label then dealtShare dice [42] twoLevels row.label else none

theorem twoLevels_recovers : ∀ dealing ∈ dealings dice [42] twoLevels, dealing.Recovers := by
  have hdealings : dealings dice [42] twoLevels
      = [⟨2, [42], 1, 2⟩, ⟨1, [1, 56], 3, 2⟩] := by decide +kernel
  rw [hdealings]
  intro dealing hdealing
  rcases mem_cons.mp hdealing with rfl | hdealing
  · exact recovers_of_all (by decide +kernel) (by decide +kernel)
  · rw [mem_singleton.mp hdealing]
    exact recovers_of_all (by decide +kernel) (by decide +kernel)

end TwoLevels

end Sample

section Samples

attribute [local instance] Sample.keyCrypto Sharks.gf256 SealedBoxes.toy
open Store.Sample

theorem split_reconstructs_sample :
    twoLevels.satisfied secondAndLast = true ∧ ∃ tree, load twoLevelStore 1 = .ok tree
        ∧ tree.reconstruct secondAndLastShares = .ok [42] := by
  have hmet : twoLevels.satisfied secondAndLast = true := by decide +kernel
  have hsplit : split dice "org" [42] twoLevels registry
      = (.ok 1, twoLevelStore) := Op.run_eq (by decide +kernel)
  obtain ⟨-, tree, hload, hreconstruct, -⟩ := split_reconstructs (by decide +kernel) hsplit (by decide)
    twoLevels_recovers
    (by decide +kernel : twoLevelStore.Presents 1 secondAndLast
      (dealtShare dice [42] twoLevels) secondAndLastShares)
  rw [hmet, if_pos rfl] at hreconstruct
  exact ⟨hmet, tree, hload, hreconstruct⟩

end Samples

end Store

end KeyQuorum
