/-
  **THE RELAY'S PUBLIC TREES** (`relay/org_tree.rs`): the slice of a tree
  that a fingerprint's owner pulls, and the merge of such a slice into the
  relay's document.
-/
import KeyQuorum.KeyTree.Visibility

namespace KeyQuorum

open List Foundation

namespace PublicTree

/-! ## §1. Slicing and merging. -/

def sliceForFingerprint (full : PublicTree) (fingerprint : String) : Option PublicTree :=
  let seeds := (full.nodes.filter fun node =>
    node.encryptionFingerprint = some fingerprint).map PublicNode.label
  if seeds.isEmpty then none
  else some (full.filterPublicTree (full.visibleLabelsInPublicTree seeds))

/-- The existing edges that the incoming labels do not speak for, after the incoming ones. -/
def mergeEdges (incomingLabels : List String) (incoming existing : List PublicEdge) :
    List PublicEdge :=
  existing.foldl (fun kept edge =>
    if edge.inside incomingLabels then kept
    else if kept.contains edge then kept
    else kept ++ [edge]) incoming

/-- The incoming nodes and edges, and the existing ones that they leave in place. -/
def upsert (existing incoming : PublicTree) : PublicTree where
  label := incoming.label
  generation := existing.generation
  nodes := incoming.nodes ++ existing.nodes.filter fun node => !incoming.labels.contains node.label
  whitelist := mergeEdges incoming.labels incoming.whitelist existing.whitelist
  links := mergeEdges incoming.labels incoming.links existing.links

def mergeIntoExisting (existing incoming : PublicTree) : Except Error PublicTree := do
  let merged := upsert existing incoming
  validatePublicTree merged
  return merged

/-! ## §2. Order does not count. -/

variable {t t' : PublicTree} {incoming existing : List PublicEdge}

theorem up_perm (hnodup : t.labels.Nodup) (hnodes : t'.nodes.Perm t.nodes) (x : String) :
    t'.up x = t.up x := by
  have hnodup' : t'.labels.Nodup := (hnodes.map PublicNode.label).nodup_iff.mpr hnodup
  apply Option.ext
  intro p
  constructor
  · intro hp
    obtain ⟨node, hnode, rfl, hparent⟩ := up_some hp
    rw [up_of_node hnodup (hnodes.mem_iff.mp hnode), hparent]
  · intro hp
    obtain ⟨node, hnode, rfl, hparent⟩ := up_some hp
    rw [up_of_node hnodup' (hnodes.mem_iff.mpr hnode), hparent]

/-- **A tree stays one when its nodes and edges are reordered.** -/
theorem Valid.perm (h : t.Valid) (hlabel : t'.label = t.label) (hnodes : t'.nodes.Perm t.nodes)
    (hwhitelist : t'.whitelist.Perm t.whitelist) (hlinks : t'.links.Perm t.links) : t'.Valid := by
  have hmem : ∀ {node}, node ∈ t'.nodes → node ∈ t.nodes := hnodes.mem_iff.mp
  have hlabels : t'.labels.Perm t.labels := hnodes.map PublicNode.label
  have hup : t'.up = t.up := funext fun x => up_perm h.nodup hnodes x
  refine ⟨hlabel ▸ h.label_ne, fun n hn => h.labels_ne n (hmem hn), hlabels.nodup_iff.mpr h.nodup,
    fun n hn => h.shaped n (hmem hn), ?_, fun n hn p hp => ?_, fun e he => ?_,
    hwhitelist.nodup_iff.mpr h.whitelistNodup, hlinks.nodup_iff.mpr h.linksNodup, fun e he => ?_,
    fun n hn r hr hnone => ?_⟩
  · obtain ⟨root, hroot⟩ := h.oneRoot
    refine ⟨root, perm_singleton.mp ?_⟩
    rw [← hroot]
    exact hnodes.filter _
  · exact hlabels.mem_iff.mpr (h.parents n (hmem hn) p hp)
  · obtain ⟨hne, hfrom, hto⟩ := h.edges e ((hwhitelist.append hlinks).mem_iff.mp he)
    exact ⟨hne, hlabels.mem_iff.mpr hfrom, hlabels.mem_iff.mpr hto⟩
  · rcases h.listed e (hlinks.mem_iff.mp he) with hin | hin
    · exact .inl (hwhitelist.mem_iff.mpr hin)
    · exact .inr (hwhitelist.mem_iff.mpr hin)
  · rw [hup]
    exact h.rooted n (hmem hn) r (hmem hr) hnone

/-! ## §3. Merging a slice back. -/

theorem mergeEdges_eq (hnodup : existing.Nodup)
    (hnew : ∀ edge ∈ existing, edge ∈ incoming → edge.inside incomingLabels) :
    mergeEdges incomingLabels incoming existing
      = incoming ++ existing.filter fun edge => !edge.inside incomingLabels := by
  unfold mergeEdges
  induction existing generalizing incoming with
  | nil => simp
  | cons edge rest ih =>
    obtain ⟨hfirst, hrest⟩ := nodup_cons.mp hnodup
    rw [foldl_cons]
    by_cases hinside : edge.inside incomingLabels
    · rw [if_pos hinside, ih hrest fun e he => hnew e (.tail _ he),
        filter_cons_of_neg (by simp [hinside])]
    · have hnot : edge ∉ incoming := fun hin => hinside (hnew edge (.head _) hin)
      rw [if_neg hinside, if_neg (by simpa using hnot), ih hrest,
        filter_cons_of_pos (by simp [hinside]), append_assoc, singleton_append]
      intro e he hin
      rcases mem_snoc.mp hin with hin | rfl
      · exact hnew e (.tail _ he) hin
      · exact absurd he hfirst

theorem mergeEdges_slice {visible : List String} {edges : List PublicEdge} (hnodup : edges.Nodup)
    (hends : ∀ edge ∈ edges, edge.from_ ∈ t.labels ∧ edge.to_ ∈ t.labels) :
    (mergeEdges (t.filterPublicTree visible).labels (edges.filter fun edge => edge.inside visible)
      edges).Perm edges := by
  have hsame : ∀ edge ∈ edges,
      edge.inside (t.filterPublicTree visible).labels = edge.inside visible := by
    intro edge hedge
    obtain ⟨hfrom, hto⟩ := hends edge hedge
    rw [Bool.eq_iff_iff, mem_inside, mem_inside, mem_filterPublicTree_labels,
      mem_filterPublicTree_labels]
    simp [hfrom, hto]
  rw [mergeEdges_eq hnodup]
  · rw [filter_congr fun edge hedge => congrArg Bool.not (hsame edge hedge)]
    exact filter_append_perm _ _
  · intro edge hedge hin
    rw [hsame edge hedge]
    exact (mem_filter.mp hin).2

/-- **Merging a slice back only reorders.** -/
theorem mergeIntoExisting_slice (h : t.Valid) (visible : List String) :
    ∃ merged, mergeIntoExisting t (t.filterPublicTree visible) = .ok merged
      ∧ merged.nodes.Perm t.nodes ∧ merged.whitelist.Perm t.whitelist
      ∧ merged.links.Perm t.links := by
  have hends : ∀ edge ∈ t.whitelist ++ t.links, edge.from_ ∈ t.labels ∧ edge.to_ ∈ t.labels :=
    fun edge hedge => (h.edges edge hedge).2
  have hwhitelist := @mergeEdges_slice t visible _ h.whitelistNodup
    fun edge hedge => hends edge (mem_append_left _ hedge)
  have hlinks := @mergeEdges_slice t visible _ h.linksNodup
    fun edge hedge => hends edge (mem_append_right _ hedge)
  have hnodes : ((t.filterPublicTree visible).nodes ++ t.nodes.filter fun node =>
      !(t.filterPublicTree visible).labels.contains node.label).Perm t.nodes := by
    have hsame : ∀ node ∈ t.nodes, (!(t.filterPublicTree visible).labels.contains node.label)
          = !visible.contains node.label := by
      intro node hnode
      have hlabel : node.label ∈ t.labels := mem_labels.mpr ⟨node, hnode, rfl⟩
      refine congrArg Bool.not ?_
      rw [Bool.eq_iff_iff, contains_iff_mem, contains_iff_mem, mem_filterPublicTree_labels]
      simp [hlabel]
    rw [filter_congr hsame]
    exact filter_append_perm _ _
  have hmerged : (upsert t (t.filterPublicTree visible)).Valid :=
    h.perm rfl hnodes hwhitelist hlinks
  unfold mergeIntoExisting
  dsimp only
  rw [validatePublicTree_ok_iff.mpr hmerged]
  exact ⟨_, rfl, hnodes, hwhitelist, hlinks⟩

/-- **Pulling a slice and pushing it back changes nothing**: the slice of a fingerprint that
occurs is a tree the relay accepts, and merging it back gives the nodes and edges that were
there. -/
theorem slice_merges_back (hvalid : validatePublicTree t = .ok ()) {fingerprint : String}
    (hoccurs : ∃ node ∈ t.nodes, node.encryptionFingerprint = some fingerprint) :
    ∃ slice, sliceForFingerprint t fingerprint = some slice ∧ validatePublicTree slice = .ok ()
      ∧ ∃ merged, mergeIntoExisting t slice = .ok merged ∧ merged.nodes.Perm t.nodes
        ∧ merged.whitelist.Perm t.whitelist ∧ merged.links.Perm t.links := by
  have h := validatePublicTree_ok_iff.mp hvalid
  obtain ⟨node, hnode, hfp⟩ := hoccurs
  have hseed : node.label ∈ (t.nodes.filter fun node =>
      node.encryptionFingerprint = some fingerprint).map PublicNode.label :=
    mem_map_of_mem (mem_filter.mpr ⟨hnode, by simpa using hfp⟩)
  have hlabel : node.label ∈ t.labels := mem_labels.mpr ⟨node, hnode, rfl⟩
  unfold sliceForFingerprint
  dsimp only
  rw [if_neg (by simpa using ne_nil_of_mem hseed)]
  refine ⟨_, rfl, validatePublicTree_ok_iff.mpr ?_, mergeIntoExisting_slice h _⟩
  exact h.filterPublicTree (fun x hx p hp => h.visible_parent hx hp)
    ⟨node.label, hlabel, h.seed_visible hseed hlabel⟩

theorem slice_merges_back_sample :
    ∃ slice, sliceForFingerprint Sample.org "s1" = some slice
      ∧ validatePublicTree slice = .ok () ∧ ∃ merged, mergeIntoExisting Sample.org slice = .ok merged
        ∧ merged.nodes.Perm Sample.org.nodes ∧ merged.whitelist.Perm Sample.org.whitelist
        ∧ merged.links.Perm Sample.org.links :=
  slice_merges_back (by decide +kernel) (by decide +kernel)

/-! ## §4. The documents. -/

/-- A row of `org_tree_docs`, which has one for each label. -/
structure OrgTreeDoc where
  generation : Nat
  document : PublicTree

def getPublicTree (docs : String → Option OrgTreeDoc) (label : String) : Except Error PublicTree :=
  match docs label with
  | some row => .ok row.document
  | none => .error .treeNotFound

/-- `u32::try_from(generation).unwrap_or(u32::MAX)`. -/
def documentGeneration (generation : Nat) : UInt32 :=
  if generation < 2 ^ 32 then .ofNat generation else 4294967295

def persistPublicTree (docs : String → Option OrgTreeDoc) (snapshot : PublicTree) :
    PublicTree × (String → Option OrgTreeDoc) :=
  let generation := match docs snapshot.label with
    | some row => min (row.generation + 1) (2 ^ 63 - 1)
    | none => 1
  let stored := { snapshot with generation := documentGeneration generation }
  (stored, Function.update docs stored.label (some ⟨generation, stored⟩))

def mergePublicTree (snapshot : PublicTree) : Op (String → Option OrgTreeDoc) Error PublicTree := do
  Op.lift (validatePublicTree snapshot)
  Op.transact fun docs => do
    let merged ← match getPublicTree docs snapshot.label with
      | .ok existing => mergeIntoExisting existing snapshot
      | .error .treeNotFound => .ok snapshot
      | .error e => .error e
    .ok (persistPublicTree docs merged)

/-- `merged` is a tree: the nodes and edges of `incoming`, the nodes of `existing` with other labels,
its edges that are not wholly inside the incoming labels, and nothing else. -/
structure Merges (existing incoming merged : PublicTree) : Prop where
  valid : validatePublicTree merged = .ok ()
  label : merged.label = incoming.label
  nodes : ∀ node, node ∈ merged.nodes
    ↔ node ∈ incoming.nodes ∨ node ∈ existing.nodes ∧ node.label ∉ incoming.labels
  whitelist : ∀ edge, edge ∈ merged.whitelist ↔ edge ∈ incoming.whitelist
    ∨ edge ∈ existing.whitelist ∧ ¬ (edge.from_ ∈ incoming.labels ∧ edge.to_ ∈ incoming.labels)
  links : ∀ edge, edge ∈ merged.links ↔ edge ∈ incoming.links
    ∨ edge ∈ existing.links ∧ ¬ (edge.from_ ∈ incoming.labels ∧ edge.to_ ∈ incoming.labels)

theorem mem_mergeEdges {labels : List String} {edge : PublicEdge} :
    edge ∈ mergeEdges labels incoming existing ↔ edge ∈ incoming
      ∨ edge ∈ existing ∧ ¬ (edge.from_ ∈ labels ∧ edge.to_ ∈ labels) := by
  rw [← mem_inside]
  unfold mergeEdges
  induction existing generalizing incoming with
  | nil => simp
  | cons first rest ih =>
    rw [foldl_cons, ih]
    split
    next => grind
    next =>
      split
      next hkept => grind
      next => grind

theorem mergeIntoExisting_ok {existing incoming : PublicTree}
    (h : mergeIntoExisting existing incoming = .ok merged) (generation : UInt32) :
    Merges existing incoming { merged with generation } := by
  obtain ⟨_, hvalid, h⟩ := try_ok h
  cases h
  have hvalid := validatePublicTree_ok_iff.mp hvalid
  refine ⟨validatePublicTree_ok_iff.mpr { hvalid with }, rfl, fun node => ?_, fun _ => mem_mergeEdges,
    fun _ => mem_mergeEdges⟩
  simp [upsert]

/-- **A partial push erases nothing that it does not mention**, and the generation goes up by one
until it has reached the largest. -/
theorem mergePublicTree_merges {docs : String → Option OrgTreeDoc} {incoming : PublicTree} {row : OrgTreeDoc}
    (hrow : docs incoming.label = some row) :
    (∃ e, mergePublicTree incoming docs = (.error e, docs))
      ∨ ∃ merged, mergePublicTree incoming docs = (.ok merged, Function.update docs incoming.label
          (some ⟨min (row.generation + 1) (2 ^ 63 - 1), merged⟩))
        ∧ Merges row.document incoming merged
        ∧ merged.generation.toNat = min (row.generation + 1) (2 ^ 32 - 1) := by
  have hgeneration (n : Nat) : (documentGeneration (min (n + 1) (2 ^ 63 - 1))).toNat
      = min (n + 1) (2 ^ 32 - 1) := by
    unfold documentGeneration
    split
    next hlt =>
      rw [UInt32.toNat_ofNat_of_lt' hlt]
      omega
    next =>
      rw [show (4294967295 : UInt32).toNat = 2 ^ 32 - 1 from rfl]
      omega
  unfold mergePublicTree getPublicTree
  cases hvalid : validatePublicTree incoming with
  | error e => exact .inl ⟨e, rfl⟩
  | ok _ =>
    rw [Op.lift_bind rfl]
    rcases Op.transact_cases _ docs with ⟨merged, docs', hbody, hrun⟩ | herror
    · refine .inr ⟨merged, ?_⟩
      rw [hrun]
      rw [hrow] at hbody
      obtain ⟨upserted, hmerge, hbody⟩ := try_ok hbody
      have hmerges := mergeIntoExisting_ok hmerge
      have hlabel : upserted.label = incoming.label := (hmerges 0).label
      have hbody : persistPublicTree docs upserted = (merged, docs') := Except.ok.inj hbody
      unfold persistPublicTree at hbody
      rw [hlabel, hrow] at hbody
      cases hbody
      exact ⟨rfl, hlabel ▸ hmerges _, hgeneration row.generation⟩
    · exact .inl herror

def Sample.docs (generation : Nat) (label : String) : Option OrgTreeDoc :=
  if label = "org" then some ⟨generation, { Sample.org with generation := documentGeneration generation }⟩
  else none

/-- The branch `M.A` alone, with its leaf deactivated. -/
def Sample.firstBranch : PublicTree where
  label := "org"
  generation := 1
  nodes := (Sample.org.nodes.filter fun node => node.label ∈ ["M", "M.A", "M.A.1"]).map fun node =>
    { node with isActive := node.label ≠ "M.A.1" }
  whitelist := []
  links := []

theorem mergePublicTree_merges_sample :
    ∃ merged, mergePublicTree Sample.firstBranch (Sample.docs 1)
        = (.ok merged, Function.update (Sample.docs 1) "org" (some ⟨2, merged⟩))
      ∧ Merges Sample.org Sample.firstBranch merged ∧ merged.generation.toNat = 2 := by
  have htaken : (mergePublicTree Sample.firstBranch (Sample.docs 1)).1.isOk := by decide +kernel
  rcases @mergePublicTree_merges (Sample.docs 1) Sample.firstBranch ⟨1, Sample.org⟩ rfl with ⟨e, he⟩ | h
  · rw [he] at htaken
    cases htaken
  · exact h

/-- At the largest generation a push is taken, and the generation stays. -/
theorem largest_generation_stays :
    (getPublicTree (Sample.docs (2 ^ 32 - 1)) "org").map PublicTree.generation = .ok 4294967295
      ∧ (mergePublicTree Sample.org (Sample.docs (2 ^ 32 - 1))).1.map PublicTree.generation
        = .ok 4294967295 := by
  decide +kernel

end PublicTree

end KeyQuorum
