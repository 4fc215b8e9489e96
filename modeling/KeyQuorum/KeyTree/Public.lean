/-
  **THE PUBLISHED TOPOLOGY OF A SPLIT TREE** (`PublicTree` in `key_tree.rs`)
  and the relay's check of it (`validate_public_tree` in
  `relay/org_tree.rs`).

  Nodes name their parent by label, so the tree is a parent map on labels.
-/
import KeyQuorum.Platform
import KeyQuorum.Text
import KeyQuorum.Foundation.Visited

namespace KeyQuorum

open List Foundation

/-! ## §1. Types. -/

structure PublicNode where
  label : String
  parentLabel : Option String
  threshold : Option UInt8
  isActive : Bool
  encryptionFingerprint : Option String
  encryptionPublicKey : Option String
  deriving DecidableEq, Repr

structure PublicEdge where
  from_ : String
  to_ : String
  deriving DecidableEq, Repr

/-- `PublicTree`: no shares and no private keys. -/
structure PublicTree where
  label : String
  generation : UInt32
  nodes : List PublicNode
  whitelist : List PublicEdge
  links : List PublicEdge
  deriving DecidableEq, Repr

def PublicEdge.flip (edge : PublicEdge) : PublicEdge := ⟨edge.to_, edge.from_⟩

def PublicEdge.inside (edge : PublicEdge) (labels : List String) : Bool :=
  labels.contains edge.from_ && labels.contains edge.to_

/-! ## §2. Parent maps. -/

/-- What `parent_of` and `children_of` are filled from: labels with their parents, in node order. -/
abbrev ParentRows := List (String × Option String)

namespace Parents

section

variable (rows : ParentRows) (label : String)

/-- `parent_of.get(label)`: the map is filled in order, so the last row of a label counts. -/
def parentOf : Option (Option String) :=
  (rows.reverse.find? (fun row => row.1 = label)).map Prod.snd

/-- `parent_of.get(label).cloned().flatten()`. -/
def up : Option String := (parentOf rows label).join

/-- `children_of.get(label)`, with no entry read as no children. -/
def childrenOf : List String :=
  (rows.filter (fun row => row.2 = some label)).map Prod.fst

end

def known (rows : ParentRows) : List String := rows.map Prod.fst ++ rows.filterMap Prod.snd

variable {label : String}

theorem parentOf_isSome :
    (parentOf rows label).isSome ↔ label ∈ rows.map Prod.fst := by
  simp [parentOf]

theorem up_some (h : up rows label = some parent) :
    (label, some parent) ∈ rows := by
  unfold up parentOf at h
  rw [Option.join_eq_some_iff, Option.map_eq_some_iff] at h
  obtain ⟨⟨first, second⟩, hfind, hparent⟩ := h
  obtain rfl : first = label := by simpa using List.find?_some hfind
  obtain rfl : second = some parent := hparent
  exact mem_reverse.mp (mem_of_find?_eq_some hfind)

theorem up_of_mem (hnodup : (rows.map Prod.fst).Nodup) (hrow : row ∈ rows) : up rows row.1 = row.2 := by
  unfold up parentOf
  rw [find?_of_unique (mem_reverse.mpr hrow) (by simp) fun other hother hlabel =>
    inj_on_of_nodup_map hnodup (mem_reverse.mp hother) hrow (by simpa using hlabel)]
  rfl

theorem mem_childrenOf (hnodup : (rows.map Prod.fst).Nodup) :
    child ∈ childrenOf rows parent ↔ up rows child = some parent := by
  constructor
  · intro h
    obtain ⟨row, hrow, rfl⟩ := mem_map.mp h
    obtain ⟨hin, hparent⟩ := mem_filter.mp hrow
    rw [up_of_mem hnodup hin]
    simpa using hparent
  · intro h
    exact mem_map.mpr ⟨_, mem_filter.mpr ⟨up_some h, by simp⟩, rfl⟩

theorem up_mem_known (h : up rows label = some parent) :
    parent ∈ known rows :=
  mem_append_right _ (mem_filterMap.mpr ⟨_, up_some h, rfl⟩)

theorem mem_childrenOf_known (h : child ∈ childrenOf rows parent) : child ∈ known rows := by
  obtain ⟨row, hrow, rfl⟩ := mem_map.mp h
  exact mem_append_left _ (mem_map_of_mem (mem_filter.mp hrow).1)

theorem covers (start : String) : Visited.Covers (up rows) (start :: known rows) start :=
  ⟨mem_cons_self, fun _ _ h => mem_cons_of_mem _ (up_mem_known h)⟩

end Parents

namespace PublicTree

def labels (t : PublicTree) : List String := t.nodes.map PublicNode.label

def rows (t : PublicTree) : ParentRows := t.nodes.map fun node => (node.label, node.parentLabel)

def up (t : PublicTree) : String → Option String := Parents.up t.rows

/-! ## §3. The check. -/

/-- A split has a threshold and no key, a leaf a key of 32 bytes and no threshold. -/
def checkShape (node : PublicNode) : Except Error Unit :=
  match node.threshold, node.encryptionFingerprint, node.encryptionPublicKey with
  | some threshold, none, none => if threshold > 0 then .ok () else .error .invalidTreeSpec
  | none, some _, some pk =>
    match hexDecode pk with
    | none => .error .invalidPublicKey
    | some raw => if raw.length ≠ 32 then .error .invalidPublicKey else .ok ()
  | _, _, _ => .error .invalidTreeSpec

def checkNodes : List PublicNode → List String → Nat → Except Error (List String × Nat)
  | [], labels, roots => .ok (labels, roots)
  | node :: rest, labels, roots =>
    if node.label.isEmpty || labels.contains node.label then .error .duplicateNodeLabel
    else do
      checkShape node
      checkNodes rest (labels ++ [node.label]) (if node.parentLabel.isNone then roots + 1 else roots)

def checkParents (labels : List String) : List PublicNode → Except Error Unit
  | [] => .ok ()
  | node :: rest =>
    match node.parentLabel with
    | some parent =>
      if labels.contains parent then checkParents labels rest else .error .invalidTreeSpec
    | none => checkParents labels rest

def checkEdges (labels : List String) : List PublicEdge → Except Error Unit
  | [] => .ok ()
  | edge :: rest =>
    if edge.from_ = edge.to_ || !labels.contains edge.from_ || !labels.contains edge.to_ then
      .error .invalidBridge
    else checkEdges labels rest

def checkWhitelist : List PublicEdge → List PublicEdge → Except Error Unit
  | [], _ => .ok ()
  | edge :: rest, seen =>
    if seen.contains edge then .error .invalidBridge else checkWhitelist rest (seen ++ [edge])

/-- No link twice, and each one allowed by a whitelist entry of either direction. -/
def checkLinks (whitelist : List PublicEdge) : List PublicEdge → List PublicEdge → Except Error Unit
  | [], _ => .ok ()
  | edge :: rest, seen =>
    if seen.contains edge then .error .invalidBridge
    else if !whitelist.any (fun allowed => allowed = edge || allowed = edge.flip) then
      .error .invalidBridge
    else checkLinks whitelist rest (seen ++ [edge])

def reachesRoot (t : PublicTree) (start root : String) : Bool :=
  Visited.reaches t.up (start :: Parents.known t.rows) root start

def checkReach (t : PublicTree) (root : String) : List PublicNode → Except Error Unit
  | [] => .ok ()
  | node :: rest =>
    if t.reachesRoot node.label root then checkReach t root rest else .error .invalidTreeSpec

def rootLabel (t : PublicTree) : Option String :=
  (t.nodes.reverse.find? (fun node => node.parentLabel.isNone)).map PublicNode.label

/-- `validate_public_tree`. -/
def validatePublicTree (t : PublicTree) : Except Error Unit :=
  if t.label.isEmpty || t.nodes.isEmpty then .error .invalidTreeSpec
  else do
    let (labels, roots) ← checkNodes t.nodes [] 0
    if roots ≠ 1 then .error .invalidTreeSpec
    else do
      checkParents labels t.nodes
      checkEdges labels (t.whitelist ++ t.links)
      checkWhitelist t.whitelist []
      checkLinks t.whitelist t.links []
      match t.rootLabel with
      | none => .error .invalidTreeSpec
      | some root => checkReach t root t.nodes

/-! ## §4. What it accepts. -/

def WellShaped (node : PublicNode) : Prop := checkShape node = .ok ()

def nodeKeyBytes (node : PublicNode) : Option Bytes := node.encryptionPublicKey.bind hexDecode

variable {node : PublicNode}

theorem wellShaped_cases (h : WellShaped node) :
    (∃ threshold, node.threshold = some threshold ∧ 0 < threshold
        ∧ node.encryptionFingerprint = none ∧ node.encryptionPublicKey = none)
      ∨ node.threshold = none ∧ ∃ fp pk raw, node.encryptionFingerprint = some fp
        ∧ node.encryptionPublicKey = some pk ∧ hexDecode pk = some raw ∧ raw.length = 32 := by
  unfold WellShaped checkShape at h
  split at h
  next threshold hthreshold hfp hpk =>
    obtain ⟨hpos, h⟩ := then_ok h
    exact .inl ⟨threshold, hthreshold, hpos, hfp, hpk⟩
  next fp pk hthreshold hfp hpk =>
    split at h
    next => cases h
    next raw hraw =>
      obtain ⟨hlength, h⟩ := else_ok h
      exact .inr ⟨hthreshold, fp, pk, raw, hfp, hpk, hraw, not_not.mp hlength⟩
  next => cases h

/-- What `validate_public_tree` accepts. -/
structure Valid (t : PublicTree) : Prop where
  label_ne : t.label ≠ ""
  labels_ne : ∀ node ∈ t.nodes, node.label ≠ ""
  nodup : t.labels.Nodup
  shaped : ∀ node ∈ t.nodes, WellShaped node
  oneRoot : ∃ root, t.nodes.filter (fun node => node.parentLabel.isNone) = [root]
  parents : ∀ node ∈ t.nodes, ∀ parent, node.parentLabel = some parent → parent ∈ t.labels
  edges : ∀ edge ∈ t.whitelist ++ t.links,
    edge.from_ ≠ edge.to_ ∧ edge.from_ ∈ t.labels ∧ edge.to_ ∈ t.labels
  whitelistNodup : t.whitelist.Nodup
  linksNodup : t.links.Nodup
  listed : ∀ edge ∈ t.links, edge ∈ t.whitelist ∨ edge.flip ∈ t.whitelist
  rooted : ∀ node ∈ t.nodes, ∀ root ∈ t.nodes, root.parentLabel = none →
    Forest.Lineage t.up node.label root.label

theorem checkNodes_ok_iff (nodes : List PublicNode) (labels : List String) (roots : Nat)
    (result : List String × Nat) :
    checkNodes nodes labels roots = .ok result ↔
      (∀ node ∈ nodes, node.label ≠ "" ∧ node.label ∉ labels ∧ WellShaped node)
        ∧ (nodes.map PublicNode.label).Nodup
        ∧ result = (labels ++ nodes.map PublicNode.label,
          roots + (nodes.filter (fun node => node.parentLabel.isNone)).length) := by
  induction nodes generalizing labels roots with
  | nil =>
    unfold checkNodes
    rw [Except.ok.injEq, eq_comm]
    simp
  | cons node rest ih =>
    unfold checkNodes
    by_cases hbad : node.label = "" ∨ node.label ∈ labels
    · rw [if_pos (by simpa using hbad)]
      refine iff_of_false (by simp) ?_
      rintro ⟨hall, -, -⟩
      obtain ⟨hne, hnew, -⟩ := hall node (.head _)
      exact hbad.elim hne hnew
    · rw [if_neg (by simpa using hbad)]
      rw [not_or] at hbad
      cases hshape : checkShape node with
      | error e =>
        refine iff_of_false (by simp) ?_
        rintro ⟨hall, -, -⟩
        have hok := (hall node (.head _)).2.2
        rw [WellShaped, hshape] at hok
        cases hok
      | ok u =>
        show checkNodes rest _ _ = .ok result ↔ _
        have hroots : (if node.parentLabel.isNone then roots + 1 else roots)
            + (rest.filter (fun node => node.parentLabel.isNone)).length
            = roots + ((node :: rest).filter (fun node => node.parentLabel.isNone)).length := by
          rw [filter_cons]
          split
          · rw [length_cons]
            omega
          · rfl
        rw [ih, hroots, append_assoc, singleton_append, ← map_cons]
        constructor
        · rintro ⟨hall, hnodup, hresult⟩
          refine ⟨?_, ?_, hresult⟩
          · intro other hother
            rcases mem_cons.mp hother with rfl | hother
            · exact ⟨hbad.1, hbad.2, hshape⟩
            · obtain ⟨hne, hnew, hok⟩ := hall other hother
              exact ⟨hne, fun hin => hnew (mem_append_left _ hin), hok⟩
          · rw [map_cons, nodup_cons]
            refine ⟨?_, hnodup⟩
            intro hin
            obtain ⟨other, hother, heq⟩ := mem_map.mp hin
            exact (hall other hother).2.1 (by simp [heq])
        · rintro ⟨hall, hnodup, hresult⟩
          rw [map_cons, nodup_cons] at hnodup
          refine ⟨?_, hnodup.2, hresult⟩
          intro other hother
          obtain ⟨hne, hnew, hok⟩ := hall other (.tail _ hother)
          refine ⟨hne, ?_, hok⟩
          rw [mem_append, mem_singleton, not_or]
          refine ⟨hnew, fun heq => hnodup.1 ?_⟩
          exact mem_map.mpr ⟨other, hother, heq⟩

theorem checkParents_ok_iff (labels : List String) (nodes : List PublicNode) :
    checkParents labels nodes = .ok () ↔
      ∀ node ∈ nodes, ∀ parent, node.parentLabel = some parent → parent ∈ labels := by
  induction nodes with
  | nil => simp [checkParents]
  | cons node rest ih =>
    unfold checkParents
    rw [forall_mem_cons]
    cases hparent : node.parentLabel with
    | none => simp [ih]
    | some parent =>
      by_cases hin : parent ∈ labels
      · simp [hin, ih]
      · simp [hin]

theorem checkEdges_ok_iff (labels : List String) (edges : List PublicEdge) :
    checkEdges labels edges = .ok () ↔
      ∀ edge ∈ edges, edge.from_ ≠ edge.to_ ∧ edge.from_ ∈ labels ∧ edge.to_ ∈ labels := by
  induction edges with
  | nil => simp [checkEdges]
  | cons edge rest ih =>
    unfold checkEdges
    rw [forall_mem_cons]
    by_cases hok : edge.from_ ≠ edge.to_ ∧ edge.from_ ∈ labels ∧ edge.to_ ∈ labels
    · rw [if_neg (by simp [hok]), ih]
      exact ⟨fun h => ⟨hok, h⟩, fun h => h.2⟩
    · rw [if_pos]
      · exact iff_of_false (by simp) fun h => hok h.1
      · by_contra hno
        simp only [Bool.or_eq_true, decide_eq_true_eq, Bool.not_eq_eq_eq_not, Bool.not_true,
          contains_eq_mem, decide_eq_false_iff_not, not_or, not_not] at hno
        exact hok ⟨hno.1.1, hno.1.2, hno.2⟩

theorem nodup_snoc_seen {edge : PublicEdge} {rest seen : List PublicEdge} :
    (rest.Nodup ∧ ∀ e ∈ rest, e ∉ seen ++ [edge]) ↔ (edge :: rest).Nodup ∧ ∀ e ∈ rest, e ∉ seen := by
  simp only [mem_snoc, not_or, forall_and, nodup_cons]
  grind

theorem checkWhitelist_ok_iff (edges seen : List PublicEdge) :
    checkWhitelist edges seen = .ok () ↔ edges.Nodup ∧ ∀ edge ∈ edges, edge ∉ seen := by
  induction edges generalizing seen with
  | nil => simp [checkWhitelist]
  | cons edge rest ih =>
    unfold checkWhitelist
    by_cases hseen : edge ∈ seen
    · simp [hseen]
    · rw [if_neg (by simpa using hseen), ih, nodup_snoc_seen, forall_mem_cons, and_iff_right hseen]

theorem checkLinks_ok_iff (whitelist edges seen : List PublicEdge) :
    checkLinks whitelist edges seen = .ok () ↔ edges.Nodup ∧ (∀ edge ∈ edges, edge ∉ seen)
      ∧ ∀ edge ∈ edges, edge ∈ whitelist ∨ edge.flip ∈ whitelist := by
  induction edges generalizing seen with
  | nil => simp [checkLinks]
  | cons edge rest ih =>
    have hany : whitelist.any (fun allowed => allowed = edge || allowed = edge.flip)
        = decide (edge ∈ whitelist ∨ edge.flip ∈ whitelist) := by
      rw [Bool.eq_iff_iff]
      simp [and_or_left, exists_or]
    unfold checkLinks
    by_cases hseen : edge ∈ seen
    · simp [hseen]
    · rw [if_neg (by simpa using hseen), hany]
      by_cases hlisted : edge ∈ whitelist ∨ edge.flip ∈ whitelist
      · rw [if_neg (by simp [hlisted]), ih, ← and_assoc, nodup_snoc_seen, forall_mem_cons, forall_mem_cons,
          and_iff_right hseen, and_iff_right hlisted, and_assoc]
      · rw [if_pos (by simpa using hlisted)]
        exact iff_of_false (by simp) fun h => hlisted (h.2.2 edge (.head _))

section Maps

variable {t : PublicTree} {label : String}

theorem rows_labels : t.rows.map Prod.fst = t.labels := by
  unfold rows labels
  rw [map_map]
  rfl

theorem mem_labels : label ∈ t.labels ↔ ∃ node ∈ t.nodes, node.label = label :=
  mem_map

theorem up_of_node (hnodup : t.labels.Nodup) (hnode : node ∈ t.nodes) :
    t.up node.label = node.parentLabel := by
  rw [← rows_labels] at hnodup
  exact Parents.up_of_mem hnodup (mem_map_of_mem hnode)

theorem up_some (h : t.up label = some parent) :
    ∃ node ∈ t.nodes, node.label = label ∧ node.parentLabel = some parent := by
  obtain ⟨node, hnode, heq⟩ := mem_map.mp (Parents.up_some h)
  obtain ⟨hlabel, hparent⟩ := Prod.mk.inj heq
  exact ⟨node, hnode, hlabel, hparent⟩

theorem reachesRoot_iff : t.reachesRoot start root ↔ Forest.Lineage t.up start root :=
  Visited.reaches_iff (Parents.covers start)

theorem checkReach_ok_iff (root : String) (nodes : List PublicNode) :
    checkReach t root nodes = .ok () ↔ ∀ node ∈ nodes, Forest.Lineage t.up node.label root := by
  induction nodes with
  | nil => simp [checkReach]
  | cons node rest ih =>
    unfold checkReach
    rw [forall_mem_cons, ← reachesRoot_iff, ← ih]
    by_cases h : t.reachesRoot node.label root = true <;> simp [h]

end Maps

/-! ## §5. The check is the structure. -/

variable {t : PublicTree} {root : PublicNode}

section

variable (h : t.nodes.filter (fun node => node.parentLabel.isNone) = [root])

include h

theorem rootLabel_of_oneRoot : t.rootLabel = some root.label := by
  unfold rootLabel
  rw [← head?_filter, filter_reverse, h]
  rfl

theorem mem_of_oneRoot : (node ∈ t.nodes ∧ node.parentLabel = none) ↔ node = root := by
  rw [← @mem_singleton _ node root, ← h, mem_filter, Option.isNone_iff_eq_none]

end

theorem Valid.exists_root (h : t.Valid) : ∃ root ∈ t.nodes, root.parentLabel = none
    ∧ ∀ node ∈ t.nodes, node.parentLabel = none → node = root := by
  obtain ⟨root, hroot⟩ := h.oneRoot
  obtain ⟨hmem, hnone⟩ := (mem_of_oneRoot hroot).mpr rfl
  exact ⟨root, hmem, hnone, fun node hnode hparent => (mem_of_oneRoot hroot).mp ⟨hnode, hparent⟩⟩

/-- **What the relay accepts.** -/
theorem validatePublicTree_ok_iff : validatePublicTree t = .ok () ↔ t.Valid := by
  unfold validatePublicTree
  by_cases hempty : t.label = "" ∨ t.nodes = []
  · rw [if_pos (by simpa using hempty)]
    refine iff_of_false (by simp) fun hvalid => ?_
    rcases hempty with hlabel | hnodes
    · exact hvalid.label_ne hlabel
    · obtain ⟨root, hroot⟩ := hvalid.oneRoot
      rw [hnodes] at hroot
      cases hroot
  · rw [if_neg (by simpa using hempty)]
    rw [not_or] at hempty
    constructor
    · intro h
      obtain ⟨⟨labels, roots⟩, hnodes, h⟩ := try_ok h
      obtain ⟨hall, hnodup, hresult⟩ := (checkNodes_ok_iff _ _ _ _).mp hnodes
      cases hresult
      obtain ⟨hroots, h⟩ := else_ok h
      obtain ⟨root, hroot⟩ : ∃ root, t.nodes.filter (fun node => node.parentLabel.isNone) = [root] :=
        length_eq_one_iff.mp (by simpa using hroots)
      obtain ⟨_, hparents, h⟩ := try_ok h
      obtain ⟨_, hedges, h⟩ := try_ok h
      obtain ⟨_, hwhitelist, h⟩ := try_ok h
      obtain ⟨_, hlinks, h⟩ := try_ok h
      rw [rootLabel_of_oneRoot hroot] at h
      obtain ⟨hlinksNodup, -, hlisted⟩ := (checkLinks_ok_iff _ _ _).mp hlinks
      refine ⟨hempty.1, fun n hn => (hall n hn).1, hnodup, fun n hn => (hall n hn).2.2,
        ⟨root, hroot⟩, (checkParents_ok_iff _ _).mp hparents,
        (checkEdges_ok_iff _ _).mp hedges,
        ((checkWhitelist_ok_iff _ _).mp hwhitelist).1, hlinksNodup, hlisted, ?_⟩
      intro node hnode other hother hnone
      rw [(mem_of_oneRoot hroot).mp ⟨hother, hnone⟩]
      exact (checkReach_ok_iff _ _).mp h node hnode
    · intro hvalid
      obtain ⟨root, hroot⟩ := hvalid.oneRoot
      have hnodes : checkNodes t.nodes [] 0 = .ok (t.labels, 1) := by
        refine (checkNodes_ok_iff _ _ _ _).mpr ⟨fun n hn => ?_, hvalid.nodup, by simp [labels, hroot]⟩
        exact ⟨hvalid.labels_ne n hn, not_mem_nil, hvalid.shaped n hn⟩
      have hmem := (mem_of_oneRoot hroot).mpr rfl
      rw [hnodes, except_ok_bind]
      dsimp only
      rw [if_neg (by simp), (checkParents_ok_iff _ _).mpr hvalid.parents, except_ok_bind,
        (checkEdges_ok_iff _ _).mpr hvalid.edges, except_ok_bind,
        (checkWhitelist_ok_iff _ _).mpr ⟨hvalid.whitelistNodup, by simp⟩, except_ok_bind,
        (checkLinks_ok_iff _ _ _).mpr ⟨hvalid.linksNodup, by simp, hvalid.listed⟩, except_ok_bind,
        rootLabel_of_oneRoot hroot]
      exact (checkReach_ok_iff _ _).mpr fun n hn => hvalid.rooted n hn root hmem.1 hmem.2

end PublicTree

end KeyQuorum
