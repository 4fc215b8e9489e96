/-
  **WHAT A TREE TO BE SPLIT IS DESCRIBED BY** (`NodeSpec` and `validate` in
  `key_tree.rs`).

  A specification is a tree of leaves and splits.  The three walks of
  `validate` are read as conditions on its nodes.
-/
import KeyQuorum.Store

namespace KeyQuorum

open List Foundation

/-! ## §1. Specifications. -/

inductive NodeSpec where
  | leaf (label : String) (hardwareKeyId : Nat) (allowedBridges : List String)
  | split (label : String) (threshold : UInt8) (children : List NodeSpec)
      (allowedBridges : List String)
  deriving Repr

namespace NodeSpec

def label : NodeSpec → String
  | leaf label _ _ => label
  | split label _ _ _ => label

def allowedBridges : NodeSpec → List String
  | leaf _ _ allowed => allowed
  | split _ _ _ allowed => allowed

@[elab_as_elim]
theorem induct {motive : NodeSpec → Prop}
    (leaf : ∀ label hardwareKeyId allowed, motive (leaf label hardwareKeyId allowed))
    (split : ∀ label threshold children allowed, (∀ child ∈ children, motive child) →
      motive (split label threshold children allowed)) : ∀ spec, motive spec
  | .leaf label hardwareKeyId allowed => leaf label hardwareKeyId allowed
  | .split label threshold children allowed =>
    split label threshold children allowed fun child _ => induct leaf split child

mutual

def subspecs : NodeSpec → List NodeSpec
  | leaf label hardwareKeyId allowed => [leaf label hardwareKeyId allowed]
  | split label threshold children allowed =>
    split label threshold children allowed :: subspecsAll children

def subspecsAll : List NodeSpec → List NodeSpec
  | [] => []
  | spec :: rest => subspecs spec ++ subspecsAll rest

end

theorem subspecsAll_eq (specs : List NodeSpec) : subspecsAll specs = specs.flatMap subspecs := by
  induction specs with
  | nil => rfl
  | cons spec rest ih => rw [subspecsAll, ih, flatMap_cons]

theorem forall_subspecs_split {P : NodeSpec → Prop} :
    (∀ node ∈ (split name threshold children allowed).subspecs, P node)
      ↔ P (split name threshold children allowed) ∧ ∀ child ∈ children, ∀ node ∈ child.subspecs, P node := by
  rw [subspecs, subspecsAll_eq, forall_mem_cons, forall_mem_flatMap]

def labels (spec : NodeSpec) : List String := spec.subspecs.map label

mutual

/-- Whether a set of leaves meets the thresholds: a leaf if it is in the set, a split if at least
`threshold` of its children are met. -/
def satisfied (present : String → Bool) : NodeSpec → Bool
  | leaf label _ _ => present label
  | split _ threshold children _ => decide (threshold.toNat ≤ countSatisfied present children)

def countSatisfied (present : String → Bool) : List NodeSpec → Nat
  | [] => 0
  | spec :: rest => (if satisfied present spec then 1 else 0) + countSatisfied present rest

end

theorem countSatisfied_eq (present : String → Bool) (specs : List NodeSpec) :
    countSatisfied present specs = specs.countP (satisfied present) := by
  induction specs with
  | nil => rfl
  | cons spec rest ih =>
    rw [countSatisfied, ih, countP_cons]
    omega

/-! ## §2. Validation. -/

mutual

def collectLabels : NodeSpec → List String → Except Error (List String)
  | leaf label _ _, seen =>
    if label.isEmpty || seen.contains label then .error .duplicateNodeLabel
    else .ok (seen ++ [label])
  | split label _ children _, seen =>
    if label.isEmpty || seen.contains label then .error .duplicateNodeLabel
    else collectLabelsAll children (seen ++ [label])

/-- The loop of `collect_labels`. -/
def collectLabelsAll : List NodeSpec → List String → Except Error (List String)
  | [], seen => .ok seen
  | spec :: rest, seen => do
      let seen ← collectLabels spec seen
      collectLabelsAll rest seen

end

/-- The first loop of `validate_bridges`. -/
def checkPeers (labels : List String) (spec : NodeSpec) : Except Error Unit :=
  if spec.allowedBridges.any (fun peer => peer = spec.label || !labels.contains peer) then
    .error .invalidBridge
  else .ok ()

mutual

def validateBridges (labels : List String) : NodeSpec → Except Error Unit
  | leaf label hardwareKeyId allowed => checkPeers labels (leaf label hardwareKeyId allowed)
  | split label threshold children allowed => do
      checkPeers labels (split label threshold children allowed)
      validateBridgesAll labels children

/-- The second loop of `validate_bridges`. -/
def validateBridgesAll (labels : List String) : List NodeSpec → Except Error Unit
  | [] => .ok ()
  | spec :: rest => do
      validateBridges labels spec
      validateBridgesAll labels rest

end

mutual

/-- `validate_node`; the number is `leaf_count`. -/
def validateNode (db : Store) : NodeSpec → Nat → Except Error Nat
  | leaf _ hardwareKeyId _, leafCount => do
      let _ ← db.getActiveEncryptionKey hardwareKeyId
      return leafCount + 1
  | split _ threshold children _, leafCount =>
    if children.isEmpty || threshold = 0 || decide (threshold.toNat > children.length)
        || decide (children.length > 255) then
      .error .invalidQuorumThreshold
    else validateNodes db children leafCount

/-- The loop of `validate_node`. -/
def validateNodes (db : Store) : List NodeSpec → Nat → Except Error Nat
  | [], leafCount => .ok leafCount
  | spec :: rest, leafCount => do
      let leafCount ← validateNode db spec leafCount
      validateNodes db rest leafCount

end

def validate (db : Store) (spec : NodeSpec) : Except Error Unit := do
  let leafCount ← validateNode db spec 0
  if leafCount = 0 then .error .invalidQuorumThreshold
  else do
    let labels ← collectLabels spec []
    validateBridges labels spec

/-! ## §3. What is valid. -/

/-- What one node has to satisfy: a leaf names an active encryption key, a split a threshold it
can meet. -/
def Fits (db : Store) : NodeSpec → Prop
  | leaf _ hardwareKeyId _ => ∃ key, db.getActiveEncryptionKey hardwareKeyId = .ok key
  | split _ threshold children _ =>
    0 < threshold.toNat ∧ threshold.toNat ≤ children.length ∧ children.length ≤ 255

structure Valid (db : Store) (spec : NodeSpec) : Prop where
  fits : ∀ node ∈ spec.subspecs, node.Fits db
  labels_ne : "" ∉ spec.labels
  nodup : spec.labels.Nodup
  peers : ∀ node ∈ spec.subspecs, ∀ peer ∈ node.allowedBridges, peer ≠ node.label ∧ peer ∈ spec.labels

theorem validateNode_fits {db : Store} (spec : NodeSpec) {count result : Nat}
    (h : validateNode db spec count = .ok result) : ∀ node ∈ spec.subspecs, node.Fits db := by
  induction spec using induct generalizing count result with
  | leaf label hardwareKeyId allowed =>
    obtain ⟨key, hkey, -⟩ := try_ok h
    intro node hnode
    rw [mem_singleton.mp hnode]
    exact ⟨key, hkey⟩
  | split label threshold children allowed ih =>
    rw [validateNode] at h
    split at h
    next => cases h
    next hshape =>
      simp only [Bool.or_eq_true, List.isEmpty_iff, decide_eq_true_eq, not_or] at hshape
      obtain ⟨⟨⟨-, hzero⟩, hmany⟩, hwide⟩ := hshape
      have hpos : threshold.toNat ≠ 0 := fun h0 => hzero (UInt8.toNat_inj.mp h0)
      refine forall_subspecs_split.mpr ⟨⟨by omega, by omega, by omega⟩, ?_⟩
      clear hmany hwide
      induction children generalizing count with
      | nil => exact nofun
      | cons first rest ihRest =>
        obtain ⟨mid, hfirst, h⟩ := try_ok h
        exact forall_mem_cons.mpr ⟨ih first (.head _) hfirst, ihRest (fun c hc => ih c (.tail _ hc)) h⟩

theorem collectLabels_ok (spec : NodeSpec) {seen result : List String}
    (h : collectLabels spec seen = .ok result) :
    result = seen ++ spec.labels ∧ "" ∉ spec.labels ∧ (seen.Nodup → result.Nodup) := by
  have hhead : ∀ {label : String}, ¬ (label.isEmpty || seen.contains label) →
      label ≠ "" ∧ label ∉ seen := by
    intro label hok
    simpa using hok
  induction spec using induct generalizing seen result with
  | leaf label hardwareKeyId allowed =>
    rw [collectLabels] at h
    obtain ⟨hok, h⟩ := else_ok h
    obtain ⟨hne, hnew⟩ := hhead hok
    cases h
    exact ⟨rfl, fun hin => hne (mem_singleton.mp hin).symm, fun hseen => nodup_snoc hseen hnew⟩
  | split label threshold children allowed ih =>
    rw [collectLabels] at h
    split at h
    next => cases h
    next hok =>
      obtain ⟨hne, hnew⟩ := hhead hok
      have hlabels : (split label threshold children allowed).labels
          = label :: children.flatMap labels := by
        unfold labels
        rw [subspecs, subspecsAll_eq, map_cons, map_flatMap]
        rfl
      have hall : ∀ {seen : List String}, collectLabelsAll children seen = .ok result →
          result = seen ++ children.flatMap labels ∧ "" ∉ children.flatMap labels
            ∧ (seen.Nodup → result.Nodup) := by
        clear h hok hlabels hnew hhead
        induction children with
        | nil =>
          intro seen h
          cases h
          simp
        | cons first rest ihRest =>
          intro seen h
          obtain ⟨mid, hfirst, h⟩ := try_ok h
          obtain ⟨rfl, hne1, hnodup1⟩ := ih first (.head _) hfirst (fun hok => by simpa using hok)
          obtain ⟨rfl, hne2, hnodup2⟩ := ihRest (fun c hc => ih c (.tail _ hc)) h
          rw [flatMap_cons, mem_append, not_or]
          exact ⟨by rw [append_assoc], ⟨hne1, hne2⟩, fun hseen => hnodup2 (hnodup1 hseen)⟩
      obtain ⟨rfl, hne', hnodup⟩ := hall h
      rw [hlabels, mem_cons, not_or]
      exact ⟨by rw [append_assoc, singleton_append], ⟨fun h => hne h.symm, hne'⟩,
        fun hseen => hnodup (nodup_snoc hseen hnew)⟩

variable {labels : List String} {u : Unit} {spec : NodeSpec}

theorem checkPeers_ok (h : checkPeers labels spec = .ok u) :
    ∀ peer ∈ spec.allowedBridges, peer ≠ spec.label ∧ peer ∈ labels := by
  obtain ⟨hok, h⟩ := else_ok h
  intro peer hpeer
  rw [any_eq_true] at hok
  by_contra hbad
  refine hok ⟨peer, hpeer, ?_⟩
  simp only [Bool.or_eq_true, decide_eq_true_eq, Bool.not_eq_true', contains_eq_mem,
    decide_eq_false_iff_not]
  by_contra hno
  rw [not_or, not_not] at hno
  exact hbad hno

theorem validateBridges_ok (spec : NodeSpec) (h : validateBridges labels spec = .ok u) :
    ∀ node ∈ spec.subspecs, ∀ peer ∈ node.allowedBridges, peer ≠ node.label ∧ peer ∈ labels := by
  induction spec using induct generalizing u with
  | leaf label hardwareKeyId allowed =>
    intro node hnode
    rw [mem_singleton.mp hnode]
    exact checkPeers_ok h
  | split label threshold children allowed ih =>
    obtain ⟨_, hpeers, hchildren⟩ := try_ok h
    refine forall_subspecs_split.mpr ⟨checkPeers_ok hpeers, ?_⟩
    clear h hpeers
    induction children with
    | nil => exact nofun
    | cons first rest ihRest =>
      obtain ⟨_, hfirst, h⟩ := try_ok hchildren
      exact forall_mem_cons.mpr ⟨ih first (.head _) hfirst, ihRest (fun c hc => ih c (.tail _ hc)) h⟩

/-- **What `validate` accepts is valid.** -/
theorem validate_ok {db : Store} (h : validate db spec = .ok u) : spec.Valid db := by
  obtain ⟨count, hnodes, h⟩ := try_ok h
  obtain ⟨-, h⟩ := else_ok h
  obtain ⟨labels, hlabels, h⟩ := try_ok h
  obtain ⟨rfl, hne, hnodup⟩ := collectLabels_ok spec hlabels
  exact ⟨validateNode_fits spec hnodes, hne, hnodup nodup_nil, validateBridges_ok spec h⟩

end NodeSpec

end KeyQuorum
