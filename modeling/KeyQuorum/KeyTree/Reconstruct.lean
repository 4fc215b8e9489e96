/-
  **GETTING A SECRET BACK** (`reconstruct_node`,
  `reconstruct_up_to_root_tracking_inner` and `reconstruct_presented` in
  `key_tree.rs`).

  A leaf gives the share presented for it; a split combines `threshold` of
  its active children.  A second walk starts at any node and climbs to the
  root.  Both report the leaves they used.
-/
import KeyQuorum.KeyTree.Arena
import KeyQuorum.KeyTree.Select

namespace KeyQuorum

open List Foundation Foundation.Forest

namespace KeyQuorumTree

section Reconstruct

variable [Crypto] [Sharks]

/-! ## §1. Walking down and up. -/

/-- `nodes[i].is_active`. -/
def activeAt (tree : KeyQuorumTree) (i : Nat) : Bool :=
  (tree.nodes[i]?.map KeyNode.isActive).getD false

/-- What a child gives its parent: the value as a share, and the leaves used for it. -/
def asShare : Except Error (Bytes × List UsedLeaf) → Option ResolvedChild
  | .ok (value, leaves) => (Share.ofBytes value).map fun share => ⟨share, leaves⟩
  | .error _ => none

/-- `Sharks(threshold as u8).recover(shares)`. -/
def recoverAt (threshold : Nat) (shares : List Share) : Except Error Bytes :=
  match Sharks.recover (threshold % 256) shares with
  | some value => .ok value
  | none => .error .quorumNotMet

/-- `reconstruct_node`, with the depth it may still descend. -/
def reconstructNode (tree : KeyQuorumTree) (rawShares : Nat → Option Bytes)
    (policy : Option (Store × Nat)) : Nat → Nat → Except Error (Bytes × List UsedLeaf)
  | 0, _ => .error .quorumNotMet
  | depth + 1, idx =>
    match tree.nodes[idx]? with
    | none => .error .nodeNotFound
    | some node =>
      if !node.isActive then .error .quorumNotMet
      else
        match node.hardwareKeyId with
        | some hardwareKeyId =>
          if policy.any (fun p => p.1.leafIsGhost hardwareKeyId) then .error .ghostDenied
          else
            match rawShares node.dbId with
            | none => .error .quorumNotMet
            | some share => .ok (share, [⟨hardwareKeyId, node.id⟩])
        | none =>
          match node.threshold with
          | none => .error .quorumNotMet
          | some threshold => do
              let resolved := node.childrenIndices.filterMap fun child =>
                if tree.activeAt child then
                  asShare (reconstructNode tree rawShares policy depth child)
                else none
              let (shares, leaves) ← selectChildSubset policy threshold resolved
              let value ← recoverAt threshold shares
              return (value, leaves)

def depth (tree : KeyQuorumTree) : Nat := tree.nodes.length + 1

/-- What the walked child and its siblings give a parent, the walked child first. -/
def resolvedAbove (tree : KeyQuorumTree) (rawShares : Nat → Option Bytes)
    (policy : Option (Store × Nat)) (parent : KeyNode) (idx : Nat) (value : Bytes)
    (used : List UsedLeaf) : List ResolvedChild :=
  (asShare (.ok (value, used))).toList ++ parent.childrenIndices.filterMap fun sib =>
    if sib = idx || !tree.activeAt sib then none
    else asShare (tree.reconstructNode rawShares policy tree.depth sib)

/-- The loop of `reconstruct_up_to_root_tracking_inner`, with the steps it may still take. -/
def climb (tree : KeyQuorumTree) (rawShares : Nat → Option Bytes) (policy : Option (Store × Nat)) :
    Nat → Nat → Bytes → List UsedLeaf → Except Error (Bytes × List UsedLeaf)
  | 0, _, _, _ => .error .quorumNotMet
  | steps + 1, idx, value, used =>
    match (tree.nodes[idx]?).bind KeyNode.parentIdx with
    | none => .ok (value, used)
    | some parentIdx =>
      match tree.nodes[parentIdx]? with
      | none => .error .nodeNotFound
      | some parent =>
        match parent.threshold with
        | none => .error .quorumNotMet
        | some threshold => do
            let (shares, leaves) ← selectChildSubset policy threshold
              (tree.resolvedAbove rawShares policy parent idx value used)
            let value ← recoverAt threshold shares
            climb tree rawShares policy steps parentIdx value leaves

variable (tree : KeyQuorumTree) (rawShares : Nat → Option Bytes)

/-- `reconstruct_up_to_root_tracking_inner`. -/
def reconstructUpToRoot
    (policy : Option (Store × Nat)) (fromIdx : Nat) : Except Error (Bytes × List UsedLeaf) := do
  let (value, startUsed) ← tree.reconstructNode rawShares policy tree.depth fromIdx
  let isRoot := ((tree.nodes[fromIdx]?).bind KeyNode.parentIdx).isNone
  let used := if isRoot || (Share.ofBytes value).isSome then startUsed else []
  tree.climb rawShares policy tree.depth fromIdx value used

/-- `KeyQuorumTree::reconstruct`: no custody policy. -/
def reconstruct : Except Error Bytes :=
  (tree.reconstructNode rawShares none tree.depth tree.rootIndex).map Prod.fst

end Reconstruct

end KeyQuorumTree

section Presented

variable [Crypto] [Sharks]

/-- `PresentedReconstruction`. -/
structure PresentedReconstruction where
  secret : Bytes
  devices : List PresentedDevice
  leaves : List UsedLeaf
  deriving DecidableEq, Repr

namespace Store

def finishPresented (db : Store) (keyId : Nat) (secret : Bytes) (leaves : List UsedLeaf) :
    Except Error PresentedReconstruction := do
  let devices ← db.enforceDevices keyId leaves
  return ⟨secret, devices, leaves⟩

/-- `reconstruct_presented`. -/
def reconstructPresented (db : Store) (keyId : Nat) (rawShares : Nat → Option Bytes) :
    Except Error PresentedReconstruction := do
  let tree ← KeyQuorumTree.load db keyId
  let (secret, leaves) ← tree.reconstructNode rawShares (some (db, keyId)) tree.depth tree.rootIndex
  db.finishPresented keyId secret leaves

variable (db : Store) (keyId lcaIdx : Nat) (rawShares : Nat → Option Bytes)

/-- `reconstruct_from_lca`, with the leaves its check was made on. -/
def reconstructFromLcaPresented : Except Error PresentedReconstruction := do
  let tree ← KeyQuorumTree.load db keyId
  let (secret, leaves) ← tree.reconstructUpToRoot rawShares (some (db, keyId)) lcaIdx
  db.finishPresented keyId secret leaves

def reconstructFromLca : Except Error Bytes :=
  (db.reconstructFromLcaPresented keyId lcaIdx rawShares).map PresentedReconstruction.secret

end Store

end Presented

namespace KeyQuorumTree

/-! ## §2. The selections behind a value. -/

section Combined

variable {tree : KeyQuorumTree}

/-- The parent of an active node. -/
def activeUp (tree : KeyQuorumTree) (i : Nat) : Option Nat := if tree.activeAt i then tree.up i else none

theorem up_of_activeUp {i p : Nat} (h : tree.activeUp i = some p) : tree.activeAt i ∧ tree.up i = some p := by
  unfold activeUp at h
  split at h
  next hactive => exact ⟨hactive, h⟩
  next => cases h

theorem lineage_of_active {l a : Nat} (h : Lineage tree.activeUp l a) : Lineage tree.up l a :=
  Relation.ReflTransGen.mono (fun _ _ h => (up_of_activeUp h).2) _ _ h

/-- The walk comes to a node with this depth left: the node and all above it are active. -/
inductive Walked (tree : KeyQuorumTree) : Nat → Nat → Prop where
  | root : tree.activeAt tree.rootIndex → Walked tree tree.rootIndex tree.depth
  | child {i p depth : Nat} : tree.up i = some p → tree.activeAt i → Walked tree p (depth + 1) →
    Walked tree i depth

theorem Walked.isActive {i depth : Nat} {node : KeyNode} (h : tree.Walked i depth)
    (hnode : tree.nodes[i]? = some node) : node.isActive := by
  have hactive : tree.activeAt i := by
    cases h with
    | root h => exact h
    | child _ h => exact h
  rwa [activeAt, hnode] at hactive

theorem lt_of_activeAt {i : Nat} (h : tree.activeAt i) : i < tree.nodes.length := by
  by_contra hge
  rw [activeAt, getElem?_eq_none (Nat.not_lt.mp hge)] at h
  cases h

/-- **A walk down meets no node twice**: wherever it comes, there is depth left. -/
theorem Walked.depth_pos (harena : Arena tree) {i depth : Nat} (h : tree.Walked i depth) :
    ∃ d, depth = d + 1 := by
  -- the nodes above `i`, itself included, each once
  obtain ⟨l, hnodup, hlength, hall, -⟩ : ∃ l : List Nat, l.Nodup ∧ l.length + depth = tree.nodes.length + 2
      ∧ (∀ x ∈ l, x < tree.nodes.length ∧ Lineage tree.up i x)
      ∧ Lineage tree.up i tree.rootIndex := by
    induction h with
    | root hactive =>
      refine ⟨[tree.rootIndex], nodup_singleton _, Nat.add_comm _ _, fun x hx => ?_, .refl _⟩
      rw [mem_singleton.mp hx]
      exact ⟨lt_of_activeAt hactive, .refl _⟩
    | @child i p depth hup hactive _ ih =>
      have hstep : Lineage tree.up i p := (Lineage.refl i).parent hup
      obtain ⟨l, hnodup, hlength, hall, hroot⟩ := ih
      refine ⟨i :: l, nodup_cons.mpr ⟨fun hin => ?_, hnodup⟩, by rw [length_cons]; omega,
        forall_mem_cons.mpr ⟨⟨lt_of_activeAt hactive, .refl i⟩, fun x hx => ?_⟩, hstep.trans hroot⟩
      · refine acyclic_of_root harena.up_root (hstep.trans hroot) ?_
        rcases lineage_cases (hall i hin).2 with rfl | hbelow
        · exact below_of_parent hup
        · exact hbelow.trans (below_of_parent hup)
      · exact ⟨(hall x hx).1, hstep.trans (hall x hx).2⟩
  have hsub : l ⊆ List.range tree.nodes.length := fun x hx => mem_range.mpr (hall x hx).1
  have hle := (subperm_of_subset hnodup hsub).length_le
  rw [length_range] at hle
  exact ⟨depth - 1, by omega⟩

variable [Sharks]

/-- One child that was combined: its position, its value as a share, and the leaves behind it. -/
structure Part where
  idx : Nat
  value : Bytes
  share : Share
  leaves : List UsedLeaf

/-- `Selected pick tree rawShares idx value leaves`: `value` is what node `idx` gives when at every
split `threshold` active children are combined that `pick` lets be taken from all of them, and
`leaves` are the leaves of these selections. -/
inductive Selected (pick : List Nat → List Nat → Prop) (tree : KeyQuorumTree)
    (rawShares : Nat → Option Bytes) : Nat → Bytes → List UsedLeaf → Prop where
  | leaf {idx hardwareKeyId : Nat} {node : KeyNode} {share : Bytes} :
      tree.nodes[idx]? = some node → node.hardwareKeyId = some hardwareKeyId →
      rawShares node.dbId = some share →
      Selected pick tree rawShares idx share [⟨hardwareKeyId, node.id⟩]
  | split {idx threshold : Nat} {node : KeyNode} {parts : List Part} {value : Bytes} :
      tree.nodes[idx]? = some node → node.threshold = some threshold →
      pick (parts.map Part.idx) node.childrenIndices →
      (∀ part ∈ parts, tree.activeAt part.idx = true) →
      (∀ part ∈ parts, Selected pick tree rawShares part.idx part.value part.leaves) →
      (∀ part ∈ parts, Share.ofBytes part.value = some part.share) →
      parts.length = threshold → 0 < threshold →
      Sharks.recover (threshold % 256) (parts.map Part.share) = some value →
      Selected pick tree rawShares idx value (parts.flatMap Part.leaves)

/-- Different children are combined, in any order. -/
abbrev Combined := Selected fun picked children => picked.Nodup ∧ picked ⊆ children

/-- Children are combined in their order, as the walk down does. -/
abbrev Chosen := Selected List.Sublist

variable {rawShares : Nat → Option Bytes} {idx : Nat} {value : Bytes} {leaves : List UsedLeaf}

theorem Combined.node (h : Combined tree rawShares idx value leaves) :
    ∃ node, tree.nodes[idx]? = some node := by
  cases h with
  | leaf hnode _ _ => exact ⟨_, hnode⟩
  | split hnode _ _ _ _ _ _ _ _ => exact ⟨_, hnode⟩

/-- **The leaves behind a value** hang below the node by active nodes. -/
theorem Combined.leaves_below (harena : Arena tree) (h : Combined tree rawShares idx value leaves) :
    leaves ≠ [] ∧ ∀ leaf ∈ leaves, ∃ l node, tree.nodes[l]? = some node ∧ node.id = leaf.leafLabel
      ∧ node.hardwareKeyId = some leaf.hardwareKeyId ∧ Lineage tree.activeUp l idx := by
  induction h with
  | @leaf idx _ node _ hnode hkey _ =>
    refine ⟨by simp, fun leaf hleaf => ?_⟩
    rw [mem_singleton.mp hleaf]
    exact ⟨idx, node, hnode, rfl, hkey, .refl idx⟩
  | @split idx threshold node parts value hnode _ hpick hactive _ _ hlength hpos _ ih =>
    refine ⟨?_, fun leaf hleaf => ?_⟩
    · obtain ⟨part, hpart⟩ := exists_mem_of_length_pos (by omega : 0 < parts.length)
      rw [ne_eq, flatMap_eq_nil_iff]
      exact fun hnil => (ih part hpart).1 (hnil part hpart)
    · obtain ⟨part, hpart, hleaf⟩ := mem_flatMap.mp hleaf
      obtain ⟨l, other, hl, hlabel, hkey, hline⟩ := (ih part hpart).2 leaf hleaf
      refine ⟨l, other, hl, hlabel, hkey, hline.parent ?_⟩
      rw [activeUp, if_pos (hactive part hpart)]
      exact (harena.mem_children hnode).mp (hpick.2 (mem_map_of_mem hpart))

theorem Chosen.combined (harena : Arena tree)
    (h : Chosen tree rawShares idx value leaves) : Combined tree rawShares idx value leaves := by
  induction h with
  | leaf hnode hkey hshare => exact .leaf hnode hkey hshare
  | split hnode hthreshold hsub hactive _ hshares hlength hpos hrecover ih =>
    exact .split hnode hthreshold ⟨(harena.nodup hnode).sublist hsub, hsub.subset⟩ hactive ih
      hshares hlength hpos hrecover

end Combined

/-! ## §3. The walk down reports its selections. -/

section Sound

variable [Crypto] [Sharks] {tree : KeyQuorumTree} {rawShares : Nat → Option Bytes}
  {policy : Option (Store × Nat)} {threshold idx : Nat} {shares : List Share} {value : Bytes}
  {leaves used : List UsedLeaf} {parent : KeyNode}

omit [Crypto] in
theorem recoverAt_ok (h : recoverAt threshold shares = .ok value) :
    Sharks.recover (threshold % 256) shares = some value := by
  unfold recoverAt at h
  split at h
  next hvalue =>
    rw [hvalue, Except.ok.inj h]
  next => cases h

def partOf (result : Except Error (Bytes × List UsedLeaf)) (idx : Nat) : Option Part :=
  match result with
  | .ok (value, leaves) => (Share.ofBytes value).map fun share => ⟨idx, value, share, leaves⟩
  | .error _ => none

/-- A part, as `select_child_subset` sees it. -/
def Part.resolved (part : Part) : ResolvedChild := ⟨part.share, part.leaves⟩

section

omit [Crypto] [Sharks]

theorem asShare_eq (result : Except Error (Bytes × List UsedLeaf)) (idx : Nat) :
    asShare result = (partOf result idx).map Part.resolved := by
  unfold asShare partOf
  cases result with
  | error e => rfl
  | ok pair =>
    rw [Option.map_map]
    rfl

theorem partOf_some (h : partOf result idx = some part) :
    result = .ok (part.value, part.leaves) ∧ part.idx = idx
      ∧ Share.ofBytes part.value = some part.share := by
  unfold partOf at h
  split at h
  next value leaves =>
    obtain ⟨share, hshare, rfl⟩ := Option.map_eq_some_iff.mp h
    exact ⟨rfl, rfl, hshare⟩
  next => cases h

theorem flattenChildren_resolved (parts : List Part) :
    flattenChildren (parts.map Part.resolved) = (parts.map Part.share, parts.flatMap Part.leaves) := by
  unfold flattenChildren
  rw [map_map, flatMap_map]
  rfl

end

def childParts (tree : KeyQuorumTree) (rawShares : Nat → Option Bytes)
    (policy : Option (Store × Nat)) (depth : Nat) (node : KeyNode) : List Part :=
  node.childrenIndices.filterMap fun child =>
    if tree.activeAt child then
      partOf (tree.reconstructNode rawShares policy depth child) child
    else none

theorem childParts_resolved (depth : Nat) (node : KeyNode) :
    (node.childrenIndices.filterMap fun child =>
        if tree.activeAt child then
          asShare (tree.reconstructNode rawShares policy depth child)
        else none)
      = (childParts tree rawShares policy depth node).map Part.resolved := by
  unfold childParts
  rw [map_filterMap]
  refine filterMap_congr fun child _ => ?_
  split
  · exact asShare_eq _ child
  · rfl

variable {part : Part} {parentIdx : Nat} {secret : Bytes}

theorem mem_childParts {depth : Nat} (h : part ∈ childParts tree rawShares policy depth node) :
    part.idx ∈ node.childrenIndices ∧ tree.activeAt part.idx
      ∧ tree.reconstructNode rawShares policy depth part.idx = .ok (part.value, part.leaves)
      ∧ Share.ofBytes part.value = some part.share := by
  obtain ⟨child, hchild, hpart⟩ := mem_filterMap.mp h
  split at hpart
  next hactive =>
    obtain ⟨hresult, rfl, hshare⟩ := partOf_some hpart
    exact ⟨hchild, hactive, hresult, hshare⟩
  next => cases hpart

theorem childParts_idx_sublist (depth : Nat) (node : KeyNode) :
    ((childParts tree rawShares policy depth node).map Part.idx).Sublist node.childrenIndices := by
  unfold childParts
  induction node.childrenIndices with
  | nil => exact .slnil
  | cons child rest ih =>
    rw [filterMap_cons]
    split
    next => exact ih.cons child
    next part hpart =>
      split at hpart
      next =>
        obtain ⟨-, rfl, -⟩ := partOf_some hpart
        exact ih.cons_cons _
      next => cases hpart

omit [Sharks] in
theorem selectChildSubset_parts
    (h : selectChildSubset policy threshold (parts.map Part.resolved) = .ok (shares, leaves)) :
    ∃ chosen : List Part, chosen.Sublist parts ∧ chosen.length = threshold ∧ 0 < threshold
      ∧ chosen.map Part.share = shares ∧ chosen.flatMap Part.leaves = leaves := by
  obtain ⟨picked, hpicked, hlength, hflat⟩ := selectChildSubset_sublist h
  obtain ⟨chosen, hsub, rfl⟩ := sublist_map_iff.mp hpicked
  rw [flattenChildren_resolved] at hflat
  obtain ⟨hshares, hleaves⟩ := Prod.mk.inj hflat
  refine ⟨chosen, hsub, by simpa using hlength, ?_, hshares, hleaves⟩
  unfold selectChildSubset at h
  obtain ⟨hsize, h⟩ := else_ok h
  simp only [Bool.or_eq_true, decide_eq_true_eq, not_or] at hsize
  omega

/-- **The walk down reports the selections it combined.** -/
theorem reconstructNode_chosen (depth : Nat)
    (h : tree.reconstructNode rawShares policy depth idx = .ok (value, leaves)) :
    Chosen tree rawShares idx value leaves ∧ tree.activeAt idx := by
  induction depth generalizing idx value leaves with
  | zero => exact absurd h (by simp [reconstructNode])
  | succ depth ih =>
    unfold reconstructNode at h
    split at h
    next => cases h
    next node hnode =>
    obtain ⟨hactive, h⟩ := else_ok h
    have hat : tree.activeAt idx := by
      unfold activeAt
      rw [hnode]
      simpa using hactive
    refine ⟨?_, hat⟩
    split at h
    next hardwareKeyId hkey =>
      obtain ⟨-, h⟩ := else_ok h
      split at h
      next => cases h
      next share hshare =>
        cases h
        exact .leaf hnode hkey hshare
    next =>
    split at h
    next => cases h
    next threshold hthreshold =>
      obtain ⟨⟨shares, used⟩, hselect, h⟩ := try_ok h
      obtain ⟨result, hrecover, h⟩ := try_ok h
      cases h
      rw [childParts_resolved] at hselect
      obtain ⟨chosen, hsub, hlength, hpos, rfl, rfl⟩ := selectChildSubset_parts hselect
      have hparts := fun part hpart => mem_childParts (hsub.subset (a := part) hpart)
      exact .split hnode hthreshold ((hsub.map _).trans (childParts_idx_sublist _ _))
        (fun part hpart => (hparts part hpart).2.1)
        (fun part hpart => (ih (hparts part hpart).2.2.1).1)
        (fun part hpart => (hparts part hpart).2.2.2) hlength hpos (recoverAt_ok hrecover)

/-! ## §4. The climb. -/

def partsAbove (tree : KeyQuorumTree) (rawShares : Nat → Option Bytes)
    (policy : Option (Store × Nat)) (parent : KeyNode) (idx : Nat) (value : Bytes)
    (used : List UsedLeaf) : List Part :=
  (partOf (.ok (value, used)) idx).toList
    ++ (childParts tree rawShares policy tree.depth parent).filter fun part => part.idx ≠ idx

theorem partsAbove_resolved (parent : KeyNode) (idx : Nat) (value : Bytes) (used : List UsedLeaf) :
    tree.resolvedAbove rawShares policy parent idx value used
      = (partsAbove tree rawShares policy parent idx value used).map Part.resolved := by
  unfold resolvedAbove partsAbove
  rw [map_append, asShare_eq _ idx]
  congr 1
  · cases partOf (.ok (value, used)) idx <;> rfl
  · unfold childParts
    induction parent.childrenIndices with
    | nil => rfl
    | cons child rest ih =>
      rw [filterMap_cons, filterMap_cons]
      by_cases hactive : tree.activeAt child
      · simp only [hactive, Bool.not_true, Bool.or_false, decide_eq_true_eq, if_true]
        cases hpart : partOf (tree.reconstructNode rawShares policy tree.depth child) child with
        | none =>
          rw [asShare_eq _ child, hpart]
          simpa using ih
        | some part =>
          obtain ⟨-, rfl, -⟩ := partOf_some hpart
          rw [asShare_eq _ part.idx, hpart]
          by_cases hsame : part.idx = idx
          · simpa [hsame] using ih
          · simpa [hsame] using ih
      · simpa [hactive] using ih

theorem mem_partsAbove (h : part ∈ partsAbove tree rawShares policy parent idx value used) :
    (part.idx = idx ∧ part.value = value ∧ part.leaves = used ∧ Share.ofBytes value = some part.share)
      ∨ part ∈ childParts tree rawShares policy tree.depth parent := by
  rcases mem_append.mp h with h | h
  · obtain ⟨hresult, hidx, hshare⟩ := partOf_some (Option.mem_toList.mp h)
    obtain ⟨hvalue, hleaves⟩ := Prod.mk.inj (Except.ok.inj hresult)
    exact .inl ⟨hidx, hvalue.symm, hleaves.symm, hvalue ▸ hshare⟩
  · exact .inr (mem_filter.mp h).1

theorem partsAbove_idx_nodup (harena : Arena tree)
    (hparent : tree.nodes[parentIdx]? = some parent) (value : Bytes) (used : List UsedLeaf) :
    ((partsAbove tree rawShares policy parent idx value used).map Part.idx).Nodup := by
  unfold partsAbove
  rw [map_append]
  refine nodup_append.mpr ⟨?_, ?_, ?_⟩
  · cases partOf (.ok (value, used)) idx <;> simp
  · have hall := @childParts_idx_sublist _ _ tree rawShares policy tree.depth parent
    exact (harena.nodup hparent).sublist ((filter_sublist.map _).trans hall)
  · intro a ha b hb heq
    obtain ⟨first, hfirst, rfl⟩ := mem_map.mp ha
    obtain ⟨other, hother, rfl⟩ := mem_map.mp hb
    have hidx := (partOf_some (Option.mem_toList.mp hfirst)).2.1
    have hne := (mem_filter.mp hother).2
    rw [decide_eq_true_eq] at hne
    exact hne (heq.symm.trans hidx)

theorem step_combined (harena : Arena tree) {result : Bytes}
    (hup : tree.up idx = some parentIdx) (hparent : tree.nodes[parentIdx]? = some parent)
    (hthreshold : parent.threshold = some threshold)
    (hselect : selectChildSubset policy threshold
      (tree.resolvedAbove rawShares policy parent idx value used) = .ok (shares, leaves))
    (hrecover : recoverAt threshold shares = .ok result)
    (hwalked : used ⊆ leaves → (Share.ofBytes value).isSome →
      Combined tree rawShares idx value used ∧ tree.activeAt idx) :
    Combined tree rawShares parentIdx result leaves := by
  rw [partsAbove_resolved] at hselect
  obtain ⟨chosen, hsub, hlength, hpos, rfl, rfl⟩ := selectChildSubset_parts hselect
  have hchild : idx ∈ parent.childrenIndices := by
    obtain ⟨node, hnode, hup⟩ := Option.bind_eq_some_iff.mp hup
    exact (harena.child hparent idx).mpr ⟨node, hnode, hup⟩
  have hparts := fun part hpart => mem_partsAbove (hsub.subset (a := part) hpart)
  refine .split hparent hthreshold ?_ (fun part hpart => ?_) (fun part hpart => ?_)
    (fun part hpart => ?_) hlength hpos (recoverAt_ok hrecover)
  · refine ⟨(partsAbove_idx_nodup harena hparent value used).sublist (hsub.map _), fun i hi => ?_⟩
    obtain ⟨part, hpart, rfl⟩ := mem_map.mp hi
    rcases hparts part hpart with ⟨rfl, -⟩ | hin
    · exact hchild
    · exact (mem_childParts hin).1
  · rcases hparts part hpart with ⟨rfl, -, rfl, hshare⟩ | hin
    · exact (hwalked (fun _ h => mem_flatMap.mpr ⟨part, hpart, h⟩) (by rw [hshare]; rfl)).2
    · exact (mem_childParts hin).2.1
  · rcases hparts part hpart with ⟨rfl, rfl, rfl, hshare⟩ | hin
    · exact (hwalked (fun _ h => mem_flatMap.mpr ⟨part, hpart, h⟩) (by rw [hshare]; rfl)).1
    · exact (reconstructNode_chosen _ (mem_childParts hin).2.2.1).1.combined harena
  · rcases hparts part hpart with ⟨-, rfl, -, hshare⟩ | hin
    · exact hshare
    · exact (mem_childParts hin).2.2.2

/-- One of the leaves lies below an inactive node between `start` and the root. -/
def Spoiled (tree : KeyQuorumTree) (start : Nat) (leaves : List UsedLeaf) : Prop :=
  ∃ leaf ∈ leaves, ∃ l node a p, tree.nodes[l]? = some node ∧ node.id = leaf.leafLabel
    ∧ Lineage tree.up l a ∧ Lineage tree.up start a ∧ tree.up a = some p
    ∧ tree.activeAt a = false

/-- **The climb reports the selections it combined**, or a leaf below an inactive node it passed. -/
theorem climb_combined (harena : Arena tree) {start : Nat} (steps : Nat)
    (hline : Lineage tree.up start idx)
    (hstate : tree.up idx = none ∨ (Share.ofBytes value).isSome →
      Combined tree rawShares idx value used ∨ tree.Spoiled start used)
    (h : tree.climb rawShares policy steps idx value used = .ok (secret, leaves)) :
    ∃ root, tree.up root = none ∧ Lineage tree.up start root
      ∧ (Combined tree rawShares root secret leaves ∨ tree.Spoiled start leaves) := by
  induction steps generalizing idx value used with
  | zero => exact absurd h (by simp [climb])
  | succ steps ih =>
    unfold climb at h
    split at h
    next hroot =>
      cases h
      exact ⟨idx, hroot, hline, hstate (.inl hroot)⟩
    next parentIdx hup =>
    split at h
    next => cases h
    next parent hparent =>
    split at h
    next => cases h
    next threshold hthreshold =>
      obtain ⟨⟨shares, used'⟩, hselect, h⟩ := try_ok h
      obtain ⟨value', hrecover, h⟩ := try_ok h
      refine ih (hline.parent hup) (fun _ => ?_) h
      by_cases hspoiled : tree.Spoiled start used'
      · exact .inr hspoiled
      · refine .inl (step_combined harena hup hparent hthreshold hselect hrecover fun hsub hshare => ?_)
        rcases hstate (.inr hshare) with hcombined | ⟨leaf, hleaf, hrest⟩
        · refine ⟨hcombined, by_contra fun hactive => hspoiled ?_⟩
          -- the walked node is inactive and was taken, so its leaves are reported
          obtain ⟨hsome, hbelow⟩ := hcombined.leaves_below harena
          obtain ⟨leaf, hleaf⟩ := exists_mem_of_ne_nil _ hsome
          obtain ⟨l, node, hnode, hlabel, -, hl⟩ := hbelow leaf hleaf
          exact ⟨leaf, hsub hleaf, l, node, idx, parentIdx, hnode, hlabel, lineage_of_active hl, hline, hup,
            Bool.eq_false_iff.mpr hactive⟩
        · exact absurd ⟨leaf, hsub hleaf, hrest⟩ hspoiled

theorem reconstructUpToRoot_combined (harena : Arena tree) {start : Nat}
    (h : tree.reconstructUpToRoot rawShares policy start = .ok (secret, leaves)) :
    ∃ root, tree.up root = none ∧ Lineage tree.up start root
      ∧ (Combined tree rawShares root secret leaves ∨ tree.Spoiled start leaves) := by
  obtain ⟨⟨value, startUsed⟩, hstart, h⟩ := try_ok h
  refine climb_combined harena _ (.refl start) (fun hcond => .inl ?_) h
  have hused : (tree.up start).isNone || (Share.ofBytes value).isSome := by
    rcases hcond with hroot | hshare
    · rw [hroot]
      rfl
    · rw [hshare, Bool.or_true]
  change Combined tree rawShares start value
    (if (tree.up start).isNone || (Share.ofBytes value).isSome then startUsed else [])
  rw [if_pos hused]
  exact (reconstructNode_chosen _ hstart).1.combined harena

omit [Crypto] [Sharks] in
theorem not_spoiled_of_active (h : ∀ node ∈ tree.nodes, node.isActive) (start : Nat)
    (leaves : List UsedLeaf) : ¬ tree.Spoiled start leaves := by
  rintro ⟨-, -, -, -, a, p, -, -, -, -, hup, hinactive⟩
  obtain ⟨node, hnode, -⟩ := Option.bind_eq_some_iff.mp hup
  unfold activeAt at hinactive
  rw [hnode] at hinactive
  cases (h node (mem_of_getElem? hnode)).symm.trans hinactive

end Sound

end KeyQuorumTree

/-! ## §5. Custody. -/

section Custody

variable [Crypto] [Sharks] {db : Store} {keyId : Nat} {rawShares : Nat → Option Bytes}

namespace Store

end Store

end Custody

/-! ## §6. A chain of three nodes. -/

namespace Store

namespace Sample

def chain (branchActive : Bool) : Store where
  hardwareKeys := [memberKey 1 "M.S.1"]
  keys := [{ id := 1, label := "org" }]
  nodes := [splitRow 1 none "M" 1, { splitRow 2 (some 1) "M.S" 1 with isActive := branchActive },
    leafRow 3 2 "M.S.1" 1]
  placements := [⟨1, .ofNat 16 9, "M.S.1"⟩]

end Sample

section Samples

attribute [local instance] Sharks.gf256 Sample.keyCrypto
open Store.Sample

end Samples

end Store

end KeyQuorum
