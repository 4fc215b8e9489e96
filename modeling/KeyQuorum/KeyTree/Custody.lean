/-
  **WHEN THE SEARCH FOR DEVICES SUCCEEDS.**

  Every split picks its own children before its ancestors pick theirs, so a
  choice that is fine for a branch can rule out the only choice that is
  fine for the whole tree (`branch_hides_choice`).  Where that cannot
  happen, an acceptable choice is found whenever there is one.
-/
import KeyQuorum.KeyTree.Reconstruct
import Mathlib.Tactic.IntervalCases

namespace KeyQuorum

open List Foundation Foundation.Combinations
open KeyQuorumTree (Chosen getElem?_loadNodes load load_ok)

/-! ## §1. Counting devices. -/

section Devices

variable [Crypto] {db : Store}

def Store.devices (db : Store) (used : List UsedLeaf) : Finset Id16 :=
  (used.filterMap fun leaf => db.deviceOf leaf.hardwareKeyId).toFinset

theorem Store.deviceCount_eq (used : List UsedLeaf) :
    db.deviceCount used = (db.devices used).card := by
  unfold Store.deviceCount Store.devices
  rw [card_toFinset]

variable {used : List UsedLeaf} {minimum : Nat} {mode : CustodyMode} {custody : CustodyPolicy}

theorem Store.mem_devices :
    device ∈ db.devices used ↔ ∃ leaf ∈ used, db.deviceOf leaf.hardwareKeyId = some device := by
  unfold Store.devices
  rw [mem_toFinset, mem_filterMap]

/-- What a policy can see of two lists of leaves together it sees of each: no device is behind different keys
of both if it asks for that, and behind both at all if it counts devices. -/
structure Store.Independent (db : Store) (custody : CustodyPolicy) (a b : List UsedLeaf) : Prop where
  keys : custody.mode = .hardware → ∀ l ∈ a, ∀ r ∈ b,
    db.deviceOf l.hardwareKeyId = db.deviceOf r.hardwareKeyId → l.hardwareKeyId = r.hardwareKeyId
  devices : 2 ≤ custody.minimumPhysicalDevices → ∀ l ∈ a, ∀ r ∈ b,
    db.deviceOf l.hardwareKeyId ≠ db.deviceOf r.hardwareKeyId

section Exchange

variable {ι : Type} {items : List ι} {before after : ι → List UsedLeaf}
  (hpair : ∀ i ∈ items, ∀ j ∈ items, i ≠ j → db.Independent custody (after i) (after j)
    ∨ (after i = before i ∧ after j = before j))

include hpair

/-- Replacing the leaves of some children by leaves that serve as well, and are independent of the other
children's, serves as well. -/
theorem asGood_exchange
    (hgood : ∀ i ∈ items, AsGood db custody.minimumPhysicalDevices (after i) (before i)) :
    AsGood db custody.minimumPhysicalDevices (items.flatMap after) (items.flatMap before) := by
  classical
  have hunion : ∀ family : ι → List UsedLeaf, db.devices (items.flatMap family)
      = items.toFinset.biUnion fun i => db.devices (family i) := by
    intro family
    ext device
    simp only [Store.mem_devices, mem_flatMap, Finset.mem_biUnion, mem_toFinset]
    constructor
    · rintro ⟨leaf, ⟨i, hi, hleaf⟩, hdevice⟩
      exact ⟨i, hi, leaf, hleaf, hdevice⟩
    · rintro ⟨i, hi, leaf, hleaf, hdevice⟩
      exact ⟨leaf, ⟨i, hi, hleaf⟩, hdevice⟩
  unfold AsGood
  rw [Store.deviceCount_eq, Store.deviceCount_eq, hunion, hunion]
  by_cases henough : ∃ i ∈ items, custody.minimumPhysicalDevices ≤ db.deviceCount (after i)
  · obtain ⟨i, hi, henough⟩ := henough
    rw [Store.deviceCount_eq] at henough
    refine .inl (Nat.le_trans henough (Finset.card_le_card ?_))
    exact Finset.subset_biUnion_of_mem (fun i => db.devices (after i)) (mem_toFinset.mpr hi)
  · have hfew : ∀ i ∈ items, (db.devices (before i)).card ≤ (db.devices (after i)).card
        ∧ (db.devices (after i)).card < custody.minimumPhysicalDevices := by
      intro i hi
      have hless := Nat.lt_of_not_le fun h => henough ⟨i, hi, h⟩
      rw [← Store.deviceCount_eq, ← Store.deviceCount_eq]
      exact ⟨(hgood i hi).resolve_left (Nat.not_le.mpr hless), hless⟩
    by_cases htwo : 2 ≤ custody.minimumPhysicalDevices
    · refine .inr (card_biUnion_exchange (fun i hi => (hfew i (mem_toFinset.mp hi)).1) fun i hi j hj hij => ?_)
      rcases hpair i (mem_toFinset.mp hi) j (mem_toFinset.mp hj) hij with hindependent | ⟨hi, hj⟩
      · refine .inl (Finset.disjoint_left.mpr fun device hl hr => ?_)
        obtain ⟨l, hl, hdl⟩ := Store.mem_devices.mp hl
        obtain ⟨r, hr, hdr⟩ := Store.mem_devices.mp hr
        exact hindependent.devices htwo l hl r hr (hdl.trans hdr.symm)
      · exact .inr ⟨by rw [hi], by rw [hj]⟩
    · -- fewer than one device on each side
      refine .inr (Nat.le_trans Finset.card_biUnion_le ?_)
      rw [Finset.sum_eq_zero]
      · exact Nat.zero_le _
      · intro i hi
        have := hfew i (mem_toFinset.mp hi)
        omega

theorem acceptable_exchange (hbefore : db.Acceptable custody.mode (items.flatMap before))
    (hafter : ∀ i ∈ items, db.Acceptable custody.mode (after i)) :
    db.Acceptable custody.mode (items.flatMap after) := by
  refine ⟨fun leaf hleaf => ?_, fun hmode a ha b hb hsame => ?_⟩
  · obtain ⟨i, hi, hleaf⟩ := mem_flatMap.mp hleaf
    exact (hafter i hi).usable leaf hleaf
  · obtain ⟨i, hi, ha⟩ := mem_flatMap.mp ha
    obtain ⟨j, hj, hb⟩ := mem_flatMap.mp hb
    by_cases hij : i = j
    · subst hij
      exact (hafter i hi).apart hmode a ha b hb hsame
    · rcases hpair i hi j hj hij with hindependent | ⟨hbi, hbj⟩
      · exact hindependent.keys hmode a ha b hb hsame
      · rw [hbi] at ha
        rw [hbj] at hb
        exact hbefore.apart hmode a (mem_flatMap_of_mem hi ha) b (mem_flatMap_of_mem hj hb) hsame

end Exchange

theorem Store.Acceptable.mono (h : db.Acceptable mode used) (hsub : part ⊆ used) :
    db.Acceptable mode part :=
  ⟨fun leaf hleaf => h.usable leaf (hsub hleaf),
    fun hmode a ha b hb => h.apart hmode a (hsub ha) b (hsub hb)⟩

theorem AsGood.trans (hab : AsGood db minimum a b) (hbc : AsGood db minimum b c) :
    AsGood db minimum a c := by
  unfold AsGood at *
  omega

end Devices

/-! ## §2. Trees in which choices do not interfere. -/

namespace KeyQuorumTree

section Choices

variable [Crypto] [Sharks]

/-- All choices at a node use the same leaves. -/
def NoChoice (tree : KeyQuorumTree) (rawShares : Nat → Option Bytes) (idx : Nat) : Prop :=
  ∀ value leaves value' leaves', Chosen tree rawShares idx value leaves →
    Chosen tree rawShares idx value' leaves' → leaves = leaves'

/-- A tree, with the shares presented for it, in which the search of one split cannot spoil that
of another.  Only the splits that the walk comes to matter. -/
structure Searchable (tree : KeyQuorumTree) (db : Store) (keyId : Nat) (custody : CustodyPolicy)
    (rawShares : Nat → Option Bytes) : Prop where
  /-- Of the selections of resolved children those that are examined include one as good as any. -/
  seen : ∀ {idx threshold depth : Nat} {node : KeyNode} {picked : List ResolvedChild},
    tree.Walked idx (depth + 1) → tree.nodes[idx]? = some node → node.threshold = some threshold →
    picked ∈ choose threshold ((childParts tree rawShares (some (db, keyId)) depth node).map Part.resolved) →
    db.Acceptable custody.mode (picked.flatMap ResolvedChild.leaves) →
    ∃ early ∈ (choose threshold
        ((childParts tree rawShares (some (db, keyId)) depth node).map Part.resolved)).take examinedLimit,
      db.Acceptable custody.mode (early.flatMap ResolvedChild.leaves)
        ∧ AsGood db custody.minimumPhysicalDevices (early.flatMap ResolvedChild.leaves)
          (picked.flatMap ResolvedChild.leaves)
  /-- Choices for two children that are combined are independent, unless neither has anything to choose. -/
  apart : ∀ {idx threshold depth : Nat} {node : KeyNode}, tree.Walked idx depth →
    tree.nodes[idx]? = some node → node.threshold = some threshold → 2 ≤ threshold →
    ∀ a ∈ node.childrenIndices, tree.activeAt a → ∀ b ∈ node.childrenIndices, tree.activeAt b → a ≠ b →
      (∀ valueA leavesA valueB leavesB, Chosen tree rawShares a valueA leavesA →
        Chosen tree rawShares b valueB leavesB → db.Independent custody leavesA leavesB)
      ∨ (NoChoice tree rawShares a ∧ NoChoice tree rawShares b)
  /-- The shares of any selection combine. -/
  recover : ∀ {idx threshold depth : Nat} {node : KeyNode} {parts : List Part}, tree.Walked idx depth →
    tree.nodes[idx]? = some node → node.threshold = some threshold →
    (parts.map Part.idx).Sublist node.childrenIndices → (∀ part ∈ parts, tree.activeAt part.idx) →
    (∀ part ∈ parts, Chosen tree rawShares part.idx part.value part.leaves) →
    (∀ part ∈ parts, Share.ofBytes part.value = some part.share) → parts.length = threshold →
    ∃ value, Sharks.recover (threshold % 256) (parts.map Part.share) = some value
  /-- What they combine into is a share again, below the root. -/
  share : ∀ {idx depth : Nat} {node : KeyNode} {value : Bytes} {leaves : List UsedLeaf},
    tree.Walked idx depth → tree.nodes[idx]? = some node → node.threshold ≠ none → node.parentIdx ≠ none →
    Chosen tree rawShares idx value leaves → (Share.ofBytes value).isSome

end Choices

/-! ## §3. The search at every node. -/

section Search

variable [Crypto] [Sharks] {tree : KeyQuorumTree} {rawShares : Nat → Option Bytes} {db : Store}
  {policy : Option (Store × Nat)} {depth idx : Nat} {node : KeyNode} {value : Bytes}
  {leaves : List UsedLeaf}

omit [Crypto] in
theorem Chosen.presented (h : Chosen tree rawShares idx value leaves)
    (hnode : tree.nodes[idx]? = some node) (hleaf : node.threshold = none) :
    rawShares node.dbId = some value := by
  cases h with
  | leaf hnode' _ hshare =>
    obtain rfl := Option.mem_unique hnode hnode'
    exact hshare
  | split hnode' hthreshold =>
    obtain rfl := Option.mem_unique hnode hnode'
    rw [hleaf] at hthreshold
    cases hthreshold

/-- What the search needs of a loaded tree: every leaf's key is registered, and no leaf is a
split. -/
structure LeavesKnown (tree : KeyQuorumTree) (db : Store) : Prop where
  registered : ∀ {idx id : Nat} {node : KeyNode}, tree.nodes[idx]? = some node →
    node.hardwareKeyId = some id → ∃ key, db.getKey id = .ok key
  split : ∀ {idx : Nat} {node : KeyNode}, tree.nodes[idx]? = some node → node.threshold ≠ none →
    node.hardwareKeyId = none

/-- What a child of a choice gives in the walk, as the induction on the choice provides it. -/
structure ChildFound (db : Store) (keyId : Nat) (custody : CustodyPolicy) (tree : KeyQuorumTree)
    (rawShares : Nat → Option Bytes) (depth : Nat) (part : Part) (value : Bytes)
    (leaves : List UsedLeaf) : Prop where
  ok : tree.reconstructNode rawShares (some (db, keyId)) depth part.idx = .ok (value, leaves)
  acceptable : db.Acceptable custody.mode leaves
  asGood : AsGood db custody.minimumPhysicalDevices leaves part.leaves

variable {keyId : Nat} {custody : CustodyPolicy}

/-- **A choice at a split is matched by the walk**: if the walk finds something as good for every
child that is combined, what it finds for these children is as good together. -/
theorem childParts_match (harena : Arena tree) (hsearch : tree.Searchable db keyId custody rawShares)
    {parts : List Part} (hwalked : tree.Walked idx (depth + 1)) (hnode : tree.nodes[idx]? = some node)
    (hthreshold : node.threshold = some threshold)
    (hsub : (parts.map Part.idx).Sublist node.childrenIndices)
    (hactive : ∀ part ∈ parts, tree.activeAt part.idx)
    (hchosen : ∀ part ∈ parts, Chosen tree rawShares part.idx part.value part.leaves)
    (hshares : ∀ part ∈ parts, Share.ofBytes part.value = some part.share)
    (hlength : parts.length = threshold)
    (hacceptable : db.Acceptable custody.mode (parts.flatMap Part.leaves))
    (hfound : ∀ part ∈ parts, ∃ value leaves,
      ChildFound db keyId custody tree rawShares depth part value leaves) :
    ∃ matched : List Part, matched.Sublist (childParts tree rawShares (some (db, keyId)) depth node)
      ∧ matched.length = threshold
      ∧ db.Acceptable custody.mode (matched.flatMap Part.leaves)
      ∧ AsGood db custody.minimumPhysicalDevices (matched.flatMap Part.leaves)
        (parts.flatMap Part.leaves) := by
  -- what the walk finds for a child that is combined
  have hmatch : ∀ part ∈ parts, ∃ other : Part,
      (if tree.activeAt part.idx then
        partOf (tree.reconstructNode rawShares (some (db, keyId)) depth part.idx) part.idx
      else none) = some other
        ∧ db.Acceptable custody.mode other.leaves
        ∧ AsGood db custody.minimumPhysicalDevices other.leaves part.leaves
        ∧ Chosen tree rawShares part.idx other.value other.leaves := by
    intro part hpart
    obtain ⟨value, leaves, hok, hacc, hgood⟩ := hfound part hpart
    have hvalue := (reconstructNode_chosen _ hok).1
    obtain ⟨other, hother, hparent⟩ :=
      (harena.child hnode part.idx).mp (hsub.subset (mem_map_of_mem hpart))
    obtain ⟨share, hshare⟩ : ∃ share, Share.ofBytes value = some share := by
      by_cases hleaf : other.threshold = none
      · have h := (hvalue.presented hother hleaf).symm.trans
          ((hchosen part hpart).presented hother hleaf)
        exact ⟨part.share, Option.some.inj h ▸ hshares part hpart⟩
      · have hup := (harena.mem_children hnode).mp (hsub.subset (mem_map_of_mem hpart))
        exact Option.isSome_iff_exists.mp (hsearch.share (.child hup (hactive part hpart) hwalked) hother hleaf
          (by rw [hparent]; simp) hvalue)
    refine ⟨⟨part.idx, value, share, leaves⟩, ?_, hacc, hgood, hvalue⟩
    rw [if_pos (hactive part hpart), hok]
    unfold partOf
    dsimp only
    rw [hshare]
    rfl
  choose! found hpart hacc hgood hvalue using hmatch
  have hmatched : (parts.map found).Sublist (childParts tree rawShares (some (db, keyId)) depth node) := by
    rw [← filterMap_eq_map', ← filterMap_congr hpart]
    have h := hsub.filterMap fun child => if tree.activeAt child then
      partOf (tree.reconstructNode rawShares (some (db, keyId)) depth child) child else none
    rwa [filterMap_map] at h
  have hpair : ∀ a ∈ parts, ∀ b ∈ parts, a ≠ b →
      db.Independent custody (found a).leaves (found b).leaves
      ∨ ((found a).leaves = a.leaves ∧ (found b).leaves = b.leaves) := by
    intro a ha b hb hab
    have hchild : ∀ part ∈ parts, part.idx ∈ node.childrenIndices :=
      fun part hpart => hsub.subset (mem_map_of_mem hpart)
    have hne : a.idx ≠ b.idx :=
      fun heq => hab (inj_on_of_nodup_map ((harena.nodup hnode).sublist hsub) ha hb heq)
    have htwo : 2 ≤ threshold := by
      rw [← hlength]
      exact (subperm_of_subset (by simpa using hab : [a, b].Nodup) (by simp [ha, hb])).length_le
    rcases hsearch.apart hwalked hnode hthreshold htwo _ (hchild a ha) (hactive a ha) _ (hchild b hb)
      (hactive b hb) hne with
      hapart | ⟨hnoneA, hnoneB⟩
    · exact .inl (hapart _ _ _ _ (hvalue a ha) (hvalue b hb))
    · exact .inr ⟨hnoneA _ _ _ _ (hvalue a ha) (hchosen a ha), hnoneB _ _ _ _ (hvalue b hb) (hchosen b hb)⟩
  refine ⟨parts.map found, hmatched, by rw [length_map, hlength], ?_, ?_⟩
  · rw [flatMap_map]
    exact acceptable_exchange hpair hacceptable hacc
  · rw [flatMap_map]
    exact asGood_exchange hpair hgood

theorem childParts_known (harena : Arena tree) (hknown : tree.LeavesKnown db)
    (h : part ∈ childParts tree rawShares policy depth node) :
    part.leaves ≠ [] ∧ ∀ leaf ∈ part.leaves, ∃ key, db.getKey leaf.hardwareKeyId = .ok key := by
  have hchosen := (reconstructNode_chosen _ (mem_childParts h).2.2.1).1
  obtain ⟨hne, hbelow⟩ := (hchosen.combined harena).leaves_below harena
  refine ⟨hne, fun leaf hleaf => ?_⟩
  obtain ⟨l, other, hother, -, hkey, -⟩ := hbelow leaf hleaf
  exact hknown.registered hother hkey

/-- **At every node the walk settles on a choice as good as any.** -/
theorem chosen_reconstructs (harena : Arena tree) (hknown : tree.LeavesKnown db)
    (hsearch : tree.Searchable db keyId custody rawShares) (hcustody : db.custodyPolicy keyId = .ok custody)
    (h : Chosen tree rawShares idx value leaves) (hwalked : tree.Walked idx depth)
    (hacceptable : db.Acceptable custody.mode leaves) :
    ∃ value' leaves', tree.reconstructNode rawShares (some (db, keyId)) depth idx = .ok (value', leaves')
        ∧ db.Acceptable custody.mode leaves'
        ∧ AsGood db custody.minimumPhysicalDevices leaves' leaves := by
  -- by induction on the choice
  induction h generalizing depth with
  | @leaf idx hardwareKeyId node share hnode hkey hshare =>
    obtain ⟨depth, rfl⟩ := hwalked.depth_pos harena
    have hghost := (hacceptable.usable _ (.head _)).1
    refine ⟨share, [⟨hardwareKeyId, node.id⟩], ?_, hacceptable, .inr (Nat.le_refl _)⟩
    unfold reconstructNode
    simp only [hnode, hwalked.isActive hnode, hkey, hshare, Option.any_some]
    rw [hghost]
    rfl
  | @split idx threshold node parts value hnode hthreshold hsub hactives hchosen hshares hlength
      hpos _ ih =>
      obtain ⟨depth, rfl⟩ := hwalked.depth_pos harena
      have hfound : ∀ part ∈ parts, ∃ value leaves,
          ChildFound db keyId custody tree rawShares depth part value leaves := by
        intro part hpart
        have hchild := hsub.subset (mem_map_of_mem hpart)
        obtain ⟨value', leaves', hok, hacc, hgood⟩ := ih part hpart
          (.child ((harena.mem_children hnode).mp hchild) (hactives part hpart) hwalked)
          (hacceptable.mono fun leaf hleaf => mem_flatMap.mpr ⟨part, hpart, hleaf⟩)
        exact ⟨value', leaves', hok, hacc, hgood⟩
      obtain ⟨matched, hmatched, hmlength, hmacc, hmgood⟩ := childParts_match harena hsearch hwalked
        hnode hthreshold hsub hactives hchosen hshares hlength hacceptable hfound
      let found := childParts tree rawShares (some (db, keyId)) depth node
      have hflat : ∀ list : List Part,
          (list.map Part.resolved).flatMap ResolvedChild.leaves = list.flatMap Part.leaves :=
        fun list => (Prod.mk.inj (flattenChildren_resolved list)).2
      obtain ⟨early, hearly, hacc, hgood⟩ := hsearch.seen hwalked hnode hthreshold
        (mem_choose.mpr ⟨hmatched.map Part.resolved, by rwa [length_map]⟩) (by rwa [hflat])
      obtain ⟨picked, hpicked, hplength, hselect, hpacc, hpgood⟩ :=
        @selectChildSubset_best _ db keyId (found.map Part.resolved) custody hcustody threshold hpos
          (fun child hchild => by
            obtain ⟨part, hpart, rfl⟩ := mem_map.mp hchild
            exact (childParts_known harena hknown hpart).1)
          (fun child hchild => by
            obtain ⟨part, hpart, rfl⟩ := mem_map.mp hchild
            exact (childParts_known harena hknown hpart).2)
          early hearly hacc
      have hbetter := hpgood.trans hgood
      obtain ⟨chosen, hchosenSub, rfl⟩ := sublist_map_iff.mp hpicked
      rw [hflat] at hpacc hbetter
      rw [hflat] at hbetter
      rw [flattenChildren_resolved] at hselect
      have hparts := fun part hpart => mem_childParts (hchosenSub.subset (a := part) hpart)
      obtain ⟨result, hresult⟩ := hsearch.recover hwalked hnode hthreshold
        ((hchosenSub.map _).trans (childParts_idx_sublist _ _)) (fun part hpart => (hparts part hpart).2.1)
        (fun part hpart => (reconstructNode_chosen _ (hparts part hpart).2.2.1).1)
        (fun part hpart => (hparts part hpart).2.2.2) (by simpa using hplength)
      refine ⟨result, chosen.flatMap Part.leaves, ?_, hpacc, hbetter.trans hmgood⟩
      unfold reconstructNode
      simp only [hnode, hwalked.isActive hnode, hthreshold, hknown.split hnode (by rw [hthreshold]; simp)]
      rw [childParts_resolved]
      rw [hselect, except_ok_bind]
      unfold recoverAt
      rw [hresult]
      rfl

end Search

end KeyQuorumTree

/-! ## §4. Custody completeness. -/

namespace Store

section Complete

variable [Crypto] [Sharks] {db : Store} {keyId : Nat} {tree : KeyQuorumTree}

omit [Sharks] in
theorem Sound.leavesKnown (hsound : db.Sound) (hload : load db keyId = .ok tree) :
    tree.LeavesKnown db := by
  have hrow : ∀ {i : Nat} {node : KeyNode}, tree.nodes[i]? = some node → ∃ row ∈ db.nodes,
      row.hardwareKeyId = node.hardwareKeyId ∧ row.threshold = node.threshold := by
    intro i node hnode
    rw [(load_ok hload).nodes, getElem?_loadNodes] at hnode
    obtain ⟨row, hrow, rfl⟩ := Option.map_eq_some_iff.mp hnode
    exact ⟨row, (mem_treeNodes.mp (mem_of_getElem? hrow)).1, rfl, rfl⟩
  constructor
  · intro idx id node hnode hkey
    obtain ⟨row, hin, hhardware, -⟩ := hrow hnode
    obtain ⟨key, hmem, rfl, -⟩ := hsound.nodeHardware row hin id (hhardware.trans hkey)
    exact getKey_of_mem (mem_map_of_mem hmem)
  · intro idx node hnode hsplit
    obtain ⟨row, hin, hhardware, hthreshold⟩ := hrow hnode
    by_contra hkey
    rw [← hhardware, ← ne_eq, Option.ne_none_iff_isSome] at hkey
    exact hsplit (hthreshold ▸ NodeRow.check_leaf (hsound.nodeChecks row hin) hkey)

/-- **Custody completeness.**  If the choices of a tree do not interfere and its root is active,
and some choice meets the custody policy, `reconstruct_presented` succeeds. -/
theorem presented_of_choice (hsound : db.Sound) (hload : load db keyId = .ok tree)
    {custody : CustodyPolicy} (hcustody : db.custodyPolicy keyId = .ok custody)
    {rawShares : Nat → Option Bytes} (hsearch : tree.Searchable db keyId custody rawShares)
    (hroot : tree.activeAt tree.rootIndex = true) {secret : Bytes} {leaves : List UsedLeaf}
    (hchosen : Chosen tree rawShares tree.rootIndex secret leaves) (hmeets : db.Meets custody leaves) :
    ∃ presented, db.reconstructPresented keyId rawShares = .ok presented := by
  have harena := (load_ok hload).arena
  obtain ⟨value, used, hok, hacceptable, hgood⟩ := KeyQuorumTree.chosen_reconstructs harena
    (hsound.leavesKnown hload) hsearch hcustody hchosen (.root hroot) hmeets.toAcceptable
  have hne := (((KeyQuorumTree.reconstructNode_chosen _ hok).1.combined harena).leaves_below harena).1
  have henough : custody.minimumPhysicalDevices ≤ db.deviceCount used := by
    have := hmeets.enough
    unfold AsGood at hgood
    omega
  obtain ⟨devices, hdevices⟩ :=
    enforceDevices_ok_iff.mpr ⟨hne, custody, hcustody, hacceptable, henough⟩
  refine ⟨⟨value, devices, used⟩, ?_⟩
  unfold reconstructPresented
  rw [hload, except_ok_bind, hok, except_ok_bind]
  unfold finishPresented
  dsimp only
  rw [hdevices, except_ok_bind]
  rfl

end Complete

end Store

/-! ## §5. A branch that can be met on either of two devices. -/

namespace Store

namespace Sample

section Forked

attribute [local instance] keyCrypto Sharks.gf256

/-- Both children of the root are needed, and two devices: a branch that either of two leaves
meets, on the devices 1 and 2, and a leaf on the device `device`. -/
def forked (device : Nat) : Store where
  hardwareKeys := [memberKey 1 "M.A.1", memberKey 2 "M.A.2", memberKey 3 "M.B"]
  keys := [{ id := 1, label := "org", custodyMode := .logical, minimumPhysicalDevices := 2 }]
  nodes := [splitRow 1 none "M" 2, splitRow 2 (some 1) "M.A" 1, leafRow 3 2 "M.A.1" 1,
    leafRow 4 2 "M.A.2" 2, leafRow 5 1 "M.B" 3]
  placements := [⟨1, .ofNat 16 1, "M.A.1"⟩, ⟨2, .ofNat 16 2, "M.A.2"⟩,
    ⟨3, .ofNat 16 device, "M.B"⟩]

def forkedTree : KeyQuorumTree where
  nodes := [ ⟨1, "M", none, [1, 4], some 2, true, none, []⟩,
    ⟨2, "M.A", some 0, [2, 3], some 1, true, none, []⟩,
    ⟨3, "M.A.1", some 1, [], none, true, some 1, []⟩,
    ⟨4, "M.A.2", some 1, [], none, true, some 2, []⟩,
    ⟨5, "M.B", some 0, [], none, true, some 3, []⟩]
  rootIndex := 0

/-- The shares of the secret `[42]`. -/
def forkedShares (id : Nat) : Option Bytes :=
  [(3, [1, 1, 43]), (4, [2, 1, 43]), (5, [2, 40])].lookup id

/-- The leaves on the devices 2 and `device`. -/
def forkedLeaves : List UsedLeaf := [⟨2, "M.A.2"⟩, ⟨3, "M.B"⟩]

theorem forked_chosen :
    Chosen forkedTree forkedShares forkedTree.rootIndex [42] forkedLeaves := by
  have hsecond : Chosen forkedTree forkedShares 3 [2, 1, 43] [⟨2, "M.A.2"⟩] :=
    @KeyQuorumTree.Selected.leaf _ _ _ _ 3 2 ⟨4, "M.A.2", some 1, [], none, true, some 2, []⟩ _
      rfl rfl rfl
  have hleaf : Chosen forkedTree forkedShares 4 [2, 40] [⟨3, "M.B"⟩] :=
    @KeyQuorumTree.Selected.leaf _ _ _ _ 4 3 ⟨5, "M.B", some 0, [], none, true, some 3, []⟩ _
      rfl rfl rfl
  have hbranch : Chosen forkedTree forkedShares 1 [1, 43] [⟨2, "M.A.2"⟩] :=
    @KeyQuorumTree.Selected.split _ _ _ _ 1 1 _ [⟨3, [2, 1, 43], ⟨2, [1, 43]⟩, [⟨2, "M.A.2"⟩]⟩] _ rfl rfl
      (by decide) (by decide) (by simpa using hsecond) (by decide) rfl (by decide) (by decide +kernel)
  exact @KeyQuorumTree.Selected.split _ _ _ _ 0 2 _
    [⟨1, [1, 43], ⟨1, [43]⟩, [⟨2, "M.A.2"⟩]⟩, ⟨4, [2, 40], ⟨2, [40]⟩, [⟨3, "M.B"⟩]⟩] _ rfl rfl
    (by decide) (by decide) (by simpa using ⟨hbranch, hleaf⟩) (by decide) rfl (by decide)
    (by decide +kernel)

/-- What the nodes below the root can give, and by which leaves. -/
def forkedChoices : List (Nat × Bytes × List UsedLeaf) :=
  [(1, [1, 43], [⟨1, "M.A.1"⟩]), (1, [1, 43], [⟨2, "M.A.2"⟩]), (2, [1, 1, 43], [⟨1, "M.A.1"⟩]),
    (3, [2, 1, 43], [⟨2, "M.A.2"⟩]), (4, [2, 40], [⟨3, "M.B"⟩])]

theorem forked_branch {parts : List KeyQuorumTree.Part} (hsub : (parts.map (·.idx)).Sublist [2, 3])
    (hlength : parts.length = 1) (hshares : ∀ part ∈ parts, Share.ofBytes part.value = some part.share)
    (hvalues : ∀ part ∈ parts, part.idx = 0 ∨ (part.idx, part.value, part.leaves) ∈ forkedChoices) :
    Sharks.recover 1 (parts.map (·.share)) = some [1, 43]
      ∧ (1, [1, 43], parts.flatMap (·.leaves)) ∈ forkedChoices := by
  obtain ⟨part, rfl⟩ := length_eq_one_iff.mp hlength
  have hin : part.idx ∈ [2, 3] := hsub.subset (.head _)
  have hvalue := hvalues part (.head _)
  have hshare := hshares part (.head _)
  obtain ⟨idx, value, share, used⟩ := part
  simp only [forkedChoices, mem_cons, Prod.mk.injEq, not_mem_nil, or_false] at hin hvalue
  rcases hvalue with h | ⟨h, -⟩ | ⟨h, -⟩ | ⟨-, rfl, rfl⟩ | ⟨-, rfl, rfl⟩ | ⟨h, -⟩
  · omega
  · omega
  · omega
  · obtain rfl : _ = share := Option.some.inj hshare
    exact (by decide +kernel : Sharks.recover 1 [(⟨1, [1, 43]⟩ : Share)] = some [1, 43]
      ∧ (1, [1, 43], [⟨1, "M.A.1"⟩]) ∈ forkedChoices)
  · obtain rfl : _ = share := Option.some.inj hshare
    exact (by decide +kernel : Sharks.recover 1 [(⟨2, [1, 43]⟩ : Share)] = some [1, 43]
      ∧ (1, [1, 43], [⟨2, "M.A.2"⟩]) ∈ forkedChoices)
  · omega

theorem forked_splits (hnode : forkedTree.nodes[idx]? = some node)
    (hthreshold : node.threshold = some threshold) :
    (idx = 0 ∧ threshold = 2 ∧ node.childrenIndices = [1, 4] ∧ node.parentIdx = none)
      ∨ (idx = 1 ∧ threshold = 1 ∧ node.childrenIndices = [2, 3]) := by
  have hlt : idx < 5 := (List.getElem?_eq_some_iff.mp hnode).1
  interval_cases idx <;> cases hnode <;> cases hthreshold
  · exact .inl ⟨rfl, rfl, rfl, rfl⟩
  · exact .inr ⟨rfl, rfl, rfl⟩

theorem forked_values (h : Chosen forkedTree forkedShares idx value leaves) :
    idx = 0 ∨ (idx, value, leaves) ∈ forkedChoices := by
  induction h with
  | @leaf idx _ node share hnode hkey hshare =>
    have hlt : idx < 5 := (List.getElem?_eq_some_iff.mp hnode).1
    interval_cases idx <;> cases hnode
    · exact .inl rfl
    · cases hkey
    all_goals
      cases hshare
      cases hkey
      decide
  | @split idx threshold node parts value hnode hthreshold hsub _ _ hshares hlength _ hrecover ih =>
    rcases forked_splits hnode hthreshold with ⟨rfl, -⟩ | ⟨rfl, rfl, hchildren⟩
    · exact .inl rfl
    · obtain ⟨hvalue, hleaves⟩ := forked_branch (hchildren ▸ hsub) hlength hshares ih
      obtain rfl : [1, 43] = value := Option.mem_unique hvalue hrecover
      exact .inr hleaves

theorem forked_searchable : forkedTree.Searchable (forked 3) 1 ⟨.logical, 2, .none⟩ forkedShares := by
  refine ⟨?_, ?_, ?_, ?_⟩
  · intro idx threshold depth node picked _ hnode hthreshold hpicked hacceptable
    refine ⟨picked, ?_, hacceptable, .inr (Nat.le_refl _)⟩
    have hfew := (@KeyQuorumTree.childParts_idx_sublist _ _ forkedTree forkedShares
      (some (forked 3, 1)) depth node).length_le
    rw [take_of_length_le]
    · exact hpicked
    · rw [length_choose, length_map]
      rw [length_map] at hfew
      refine (Nat.choose_le_choose _ hfew).trans ?_
      rcases forked_splits hnode hthreshold with ⟨-, rfl, hchildren, -⟩ | ⟨-, rfl, hchildren⟩ <;>
        rw [hchildren] <;> decide
  · intro idx threshold depth node _ hnode hthreshold htwo a ha _ b hb _ hab
    rcases forked_splits hnode hthreshold with ⟨-, -, hchildren, -⟩ | ⟨-, rfl, -⟩
    · rw [hchildren] at ha hb
      refine .inl fun valueA leavesA valueB leavesB hchosenA hchosenB => ⟨by simp, fun _ => ?_⟩
      have hA := (forked_values hchosenA).resolve_left (by rintro rfl; simp at ha)
      have hB := (forked_values hchosenB).resolve_left (by rintro rfl; simp at hb)
      have hall : ∀ x ∈ forkedChoices, ∀ y ∈ forkedChoices, x.1 ∈ [1, 4] → y.1 ∈ [1, 4] → x.1 ≠ y.1 →
          ∀ l ∈ x.2.2, ∀ r ∈ y.2.2,
            (forked 3).deviceOf l.hardwareKeyId ≠ (forked 3).deviceOf r.hardwareKeyId := by
        decide +kernel
      exact hall _ hA _ hB ha hb hab
    · omega
  · intro idx threshold depth node parts _ hnode hthreshold hsub _ hchosen hshares hlength
    rcases forked_splits hnode hthreshold with ⟨-, rfl, hchildren, -⟩ | ⟨-, rfl, hchildren⟩ <;>
      rw [hchildren] at hsub
    · obtain ⟨first, second, rfl⟩ := length_eq_two.mp hlength
      have hidx := hsub.eq_of_length rfl
      have hfirst := forked_values (hchosen first (by simp))
      have hsecond := forked_values (hchosen second (by simp))
      have hshare := hshares first (by simp)
      have hshare' := hshares second (by simp)
      obtain ⟨i, value, share, used⟩ := first
      obtain ⟨j, value', share', used'⟩ := second
      obtain ⟨rfl, rfl⟩ : i = 1 ∧ j = 4 := by simpa using hidx
      obtain ⟨rfl, -⟩ | ⟨rfl, -⟩ : value = [1, 43] ∧ _ ∨ value = [1, 43] ∧ _ := by
        simpa [forkedChoices] using hfirst
      all_goals
        obtain ⟨rfl, -⟩ : value' = [2, 40] ∧ _ := by simpa [forkedChoices] using hsecond
        obtain rfl : _ = share := Option.some.inj hshare
        obtain rfl : _ = share' := Option.some.inj hshare'
        exact ⟨[42], (by decide +kernel :
          Sharks.recover 2 [(⟨1, [43]⟩ : Share), ⟨2, [40]⟩] = some [42])⟩
    · exact ⟨[1, 43], (forked_branch hsub hlength hshares fun part hpart =>
        forked_values (hchosen part hpart)).1⟩
  · intro idx depth node value leaves _ hnode hthreshold hparent hchosen
    obtain ⟨threshold, hthreshold⟩ := Option.ne_none_iff_exists'.mp hthreshold
    rcases forked_splits hnode hthreshold with ⟨-, -, -, hnone⟩ | ⟨rfl, -⟩
    · exact absurd hnone hparent
    · have hall : ∀ x ∈ forkedChoices, (Share.ofBytes x.2.1).isSome := by decide
      exact hall _ ((forked_values hchosen).resolve_left (by simp))

end Forked

end Sample

section Samples

attribute [local instance] Sample.keyCrypto Sharks.gf256
open Store.Sample

theorem forked_meets
    (husable : ∀ leaf ∈ forkedLeaves, (forked device).leafIsGhost leaf.hardwareKeyId = false)
    (hdevices : 2 ≤ (forked device).deviceCount forkedLeaves) :
    (forked device).Meets ⟨.logical, 2, .none⟩ forkedLeaves := by
  refine ⟨⟨fun leaf hleaf => ⟨husable leaf hleaf, ?_⟩, fun h => absurd h (by decide)⟩, hdevices⟩
  rcases mem_cons.mp hleaf with rfl | hleaf
  · exact ⟨_, rfl⟩
  · obtain rfl := mem_singleton.mp hleaf
    exact ⟨_, rfl⟩

theorem presented_of_choice_sample :
    (forked 3).Meets ⟨.logical, 2, .none⟩ forkedLeaves
      ∧ ∃ presented, (forked 3).reconstructPresented 1 forkedShares = .ok presented := by
  have hmeets := @forked_meets 3 (by decide +kernel) (by decide +kernel)
  exact ⟨hmeets, presented_of_choice (by decide +kernel)
    (by decide +kernel : load (forked 3) 1 = .ok forkedTree) (by decide +kernel)
    forked_searchable (by decide) forked_chosen hmeets⟩

/-- With the leaf on the branch's first device the branch takes its first leaf, which is as good as
the second for itself, and the root is left with one device. -/
theorem branch_hides_choice :
    (forked 1).Sound ∧ load (forked 1) 1 = .ok forkedTree
      ∧ (forked 1).custodyPolicy 1 = .ok ⟨.logical, 2, .none⟩
      ∧ Chosen forkedTree forkedShares forkedTree.rootIndex [42] forkedLeaves
      ∧ (forked 1).Meets ⟨.logical, 2, .none⟩ forkedLeaves
      ∧ (forked 1).reconstructPresented 1 forkedShares = .error .physicalDevicesNotMet := by
  refine ⟨by decide +kernel, by decide +kernel, by decide +kernel, forked_chosen,
    forked_meets (by decide +kernel) (by decide +kernel), by decide +kernel⟩

end Samples

end Store

end KeyQuorum
