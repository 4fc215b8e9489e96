/-
  **CHOOSING THE PERSON WHO RESOLVES A CONFLICT**, and recording what they
  decide (`file_history/resolve.rs`).

  `select_resolver` runs four rules in order; `resolve_divergence`,
  `resolve_conflict` and `reject_merge` record the outcome.
-/
import KeyQuorum.FileHistory.Trust
import KeyQuorum.FileHistory.Merge

namespace KeyQuorum

open Foundation

inductive SelectionRule where
  | priorNeutralOwner
  | mostSeniorHistoricalOwner
  | dominantSector
  | lowestCommonSeniorAncestor
  deriving DecidableEq, Repr

def SelectionRule.name : SelectionRule → String
  | .priorNeutralOwner => "PRIOR_NEUTRAL_OWNER"
  | .mostSeniorHistoricalOwner => "MOST_SENIOR_HISTORICAL_OWNER"
  | .dominantSector => "DOMINANT_SECTOR"
  | .lowestCommonSeniorAncestor => "LOWEST_COMMON_SENIOR_ANCESTOR"

/-- `ResolverSelection`; `from_` holds the owners still tied when the rule chose. -/
inductive ResolverSelection where
  | assigned (reviewer : String) (rule : SelectionRule) (from_ : List String)
  | unresolved
  deriving DecidableEq, Repr

structure Divergence where
  auto : AutoMerge
  selection : Option ResolverSelection
  deriving DecidableEq, Repr

/-- `Resolution`: how a reviewer settles a conflict. -/
inductive Resolution where
  | keepLeft
  | keepRight
  | edited (content : Bytes)
  deriving DecidableEq, Repr

def Resolution.name : Resolution → String
  | .keepLeft => "KEEP_LEFT"
  | .keepRight => "KEEP_RIGHT"
  | .edited _ => "EDITED"

/-- `OpenConflict`: the two heads that conflict. -/
structure OpenConflict where
  left : Digest
  right : Digest
  parents : List Digest
  deriving DecidableEq, Repr

/-- `WithoutBridges`: forwards the current keys and the generations, and nothing else, so the
trait's defaults answer for historical keys. -/
def withoutBridges (ctx : TrustContext) : TrustContext where
  signingPublic := ctx.signingPublic
  bridgeEvidence := fun _ => .none
  generationEvidence := ctx.generationEvidence

def needsPerson : AutoMergeOutcome → Bool
  | .requiresHuman | .unsupportedContent | .policyBlocked => true
  | .fastForward | .alreadyEquivalent | .cleanMerge => false

/-! ## §1. The rules. -/

def depth (label : String) : Nat := (label.toList.splitOn '.').length

/-- `sector`: the branch under the root. -/
def sector (label : String) : String :=
  String.ofList (['.'].intercalate ((label.toList.splitOn '.').take 2))

/-- `distinct`: the first of each label, in order. -/
def distinct (labels : List String) : List String :=
  labels.foldl (fun out label => if out.contains label then out else out ++ [label]) []

def commonAncestor : List String → Option String
  | [] => none
  | label :: rest => rest.foldlM lowestCommonAncestor label

/-- Rule 4: escalate to the nearest ancestor of everything still tied. -/
def escalate (eligible : String → Bool) (tied : List String) : ResolverSelection :=
  match commonAncestor tied with
  | some label =>
    if eligible label then .assigned label .lowestCommonSeniorAncestor tied else .unresolved
  | none => .unresolved

/-- Rule 3: the sector with the most owners in the history; if it does not decide, rule 4. -/
def breakTie (eligible : String → Bool) (history tied : List String) : ResolverSelection :=
  let count := fun s => (history.filter (fun label => sector label = s)).length
  let sectors := distinct (tied.map sector)
  let top := ((sectors.map count).max?).getD 0
  match sectors.filter (fun s => count s = top) with
  | [leader] =>
    match tied.filter (fun label => sector label = leader) with
    | [only] => .assigned only .dominantSector []
    | narrowed => escalate eligible narrowed
  | _ => escalate eligible tied

def mostSenior (eligible : String → Bool) (history : List String) : ResolverSelection :=
  let candidates := history.filter eligible
  match (candidates.map depth).min? with
  | none => .unresolved
  | some shallowest =>
    match candidates.filter (fun label => depth label = shallowest) with
    | [only] => .assigned only .mostSeniorHistoricalOwner []
    | tied => breakTie eligible history tied

/-- Whether two of the tied labels are joined by an authorized non-private bridge. -/
def bridgedPair (ctx : TrustContext) : List String → Bool
  | [] => false
  | a :: rest =>
    rest.any (fun b => ctx.bridgeBetween a b = .nonPrivateAuthorized) || bridgedPair ctx rest

namespace TrackedFile

def authorOf (f : TrackedFile) (id : Digest) : Except Error String :=
  match f.get id with
  | some stored => .ok stored.revision.authorHcpLabel
  | none => .error .invalidTrackedFile

def isRejected (f : TrackedFile) (revision : Digest) : Bool :=
  f.events.any (fun event => event.eventType = .mergeRejected && event.revisionId = some revision)

def authored (f : TrackedFile) (id : Digest) (label : String) : Except Error Bool := do
  let author ← f.authorOf id
  .ok (author = label)

section Selection

variable [Crypto]

/-- The ids and authors of the revisions trusted on signatures alone, in storage order. -/
def trustedAuthors (f : TrackedFile) (policy : FilePolicy) (ctx : TrustContext) :
    List (Digest × String) :=
  (f.revisions.map (fun stored => (stored.id, stored.revision.authorHcpLabel))).filter
    (fun entry => f.isTrusted policy (withoutBridges ctx) entry.1)

def selectResolver (f : TrackedFile) (left right : Digest) (policy : FilePolicy)
    (ctx : TrustContext) : Except Error ResolverSelection := do
  let leftAuthor ← f.authorOf left
  let rightAuthor ← f.authorOf right
  let conflicting := distinct [leftAuthor, rightAuthor]
  let trusted := f.trustedAuthors policy ctx
  let eligible := fun label => policy.mayAuthor label && !conflicting.contains label
  let ofLeft := RevisionGraph.ancestorSet f.revisions left
  let ofRight := RevisionGraph.ancestorSet f.revisions right
  .ok <| match trusted.reverse.find? (fun entry =>
      ofLeft.contains entry.1 && ofRight.contains entry.1 && eligible entry.2) with
    | some (_, label) => .assigned label .priorNeutralOwner []
    | none => mostSenior eligible (distinct (trusted.map Prod.snd ++ conflicting))

def mayDecide (f : TrackedFile) (left right : Digest) (label : String) (policy : FilePolicy)
    (ctx : TrustContext) : Except Error Bool := do
  let ofLeft ← f.authored left label
  if ofLeft then .ok false
  else do
    let ofRight ← f.authored right label
    if ofRight then .ok false
    else do
      let selection ← f.selectResolver left right policy ctx
      .ok <| match selection with
        | .assigned reviewer _ _ => isAncestorOrSelf label reviewer
        | .unresolved => isAncestorOrSelf label policy.scopeRoot

variable [CharTable]

def openConflict (f : TrackedFile) (allowed : Bool) : Except Error (Option OpenConflict) :=
  match RevisionGraph.heads f.revisions with
  | [left, right] => do
      let relation ← RevisionGraph.compare f.revisions left right
      if relation ≠ .diverged then .ok none
      else do
        let plan ← f.planAutoMerge left right allowed
        .ok (if needsPerson plan.outcome then some ⟨left, right, [left, right]⟩ else none)
  | [head] =>
    if f.isRejected head then
      match f.get head with
      | none => .error .invalidTrackedFile
      | some stored => .ok <| match stored.parents with
          | [left, right] => some ⟨left, right, [head]⟩
          | _ => none
    else .ok none
  | _ => .ok none

/-! ## §2. Recording a divergence. -/

/-- The review path between the tied branches, when a bridge is authorized to be named. -/
def recordBridge (rng : Nat → Id16) (new : NewRevision) (ctx : TrustContext)
    (tied : List String) : FileOp Unit :=
  if bridgedPair ctx tied then do
    let _ ← append rng (mergeEvent new .bridgeUsed none .success
      ((EventDetails.new.withDetail "operation" "CONFLICT_ESCALATION").withDetail "result"
        "REVIEW_PATH_ESTABLISHED"))
    pure ()
  else pure ()

def selectionEvent (new : NewRevision) : ResolverSelection → NewEvent
  | .assigned reviewer .lowestCommonSeniorAncestor tied =>
    mergeEvent new .conflictReviewEscalated none .success
      (((EventDetails.new.withDetail "from" (",".intercalate tied)).withDetail "to"
        reviewer).withDetail "selection_rule" SelectionRule.lowestCommonSeniorAncestor.name)
  | .assigned reviewer rule _ =>
    mergeEvent new .conflictReviewAssigned none .success
      ((EventDetails.new.withDetail "reviewer" reviewer).withDetail "selection_rule" rule.name)
  | .unresolved =>
    mergeEvent new .conflictUnresolved none .denied
      (EventDetails.new.withDetail "reason" "NO_AUTHORIZED_RESOLVER")

def recordSelection (rng : Nat → Id16) (new : NewRevision) (ctx : TrustContext) :
    ResolverSelection → FileOp Unit
  | .assigned reviewer .lowestCommonSeniorAncestor tied => do
      recordBridge rng new ctx tied
      let _ ← append rng (selectionEvent new (.assigned reviewer .lowestCommonSeniorAncestor tied))
      pure ()
  | selection => do
      let _ ← append rng (selectionEvent new selection)
      pure ()

/-- The part of `resolve_divergence_steps` after the heads were found to have diverged. -/
def recordConflict (rng : Nat → Id16) (left right : Digest) (new : NewRevision)
    (policy : FilePolicy) (ctx : TrustContext) (auto : AutoMerge) : FileOp Divergence := do
  let file ← Op.read
  let selection ← Op.lift (file.selectResolver left right policy ctx)
  let heads := (EventDetails.new.withDetail "revision_a" (hexEncode left.bytes)).withDetail
    "revision_b" (hexEncode right.bytes)
  let _ ← append rng (mergeEvent new .historyForkDetected none .info heads)
  let _ ← append rng (mergeEvent new .contentConflictDetected none .info
    (heads.withDetail "reason" auto.reason))
  recordSelection rng new ctx selection
  pure ⟨auto, some selection⟩

section

variable (rng : Nat → Id16) (left right : Digest) (allowed : Bool) (new : NewRevision)
    (policy : FilePolicy) (ctx : TrustContext)

def resolveDivergenceSteps : FileOp Divergence := do
  let auto ← autoMerge rng left right allowed new
  if !needsPerson auto.outcome then pure ⟨auto, none⟩
  else do
    let file ← Op.read
    let relation ← Op.lift (RevisionGraph.compare file.revisions left right)
    if relation ≠ .diverged then pure ⟨auto, none⟩
    else recordConflict rng left right new policy ctx auto

def resolveDivergence : FileOp Divergence :=
  atomically (resolveDivergenceSteps rng left right allowed new policy ctx)

end

/-! ## §3. Settling a conflict. -/

/-- `open_conflict`, or the error when nothing waits for a person. -/
def requireConflict (f : TrackedFile) (allowed : Bool) : Except Error OpenConflict := do
  let found ← f.openConflict allowed
  match found with
  | some conflict => .ok conflict
  | none => .error .invalidTrackedFile

def resolvedContent (f : TrackedFile) (conflict : OpenConflict) : Resolution → Except Error Bytes
  | .keepLeft => (f.contentOf conflict.left).elim (.error .fileExpired) .ok
  | .keepRight => (f.contentOf conflict.right).elim (.error .fileExpired) .ok
  | .edited content => .ok content

/-- `CONFLICT_RESOLVED`. -/
def resolvedEvent (new : NewRevision) (conflict : OpenConflict) (resolution : Resolution)
    (id : Digest) : NewEvent :=
  mergeEvent new .conflictResolved (some id) .success
    (((((EventDetails.new.withDetail "revision_a" (hexEncode conflict.left.bytes)).withDetail
      "revision_b" (hexEncode conflict.right.bytes)).withDetail "resolution"
      resolution.name).withDetail "reviewer" new.authorHcpLabel).withDetail "trust_state" "PENDING")

section

variable (rng : Nat → Id16) (resolution : Resolution) (new : NewRevision) (policy : FilePolicy)
    (ctx : TrustContext)

def resolveConflictSteps : FileOp Digest := do
  let file ← Op.read
  let conflict ← Op.lift (file.requireConflict policy.autoMerge)
  let decides ← Op.lift (file.mayDecide conflict.left conflict.right new.authorHcpLabel policy ctx)
  Op.require decides .invalidTrackedFile
  let content ← Op.lift (file.resolvedContent conflict resolution)
  let id ← checkIn { new with parentRevisionIds := conflict.parents } content
  let _ ← append rng (resolvedEvent new conflict resolution id)
  pure id

def resolveConflict : FileOp Digest :=
  atomically (resolveConflictSteps rng resolution new policy ctx)

end

/-! ## §4. Rejecting a proposed merge. -/

def mergeParents (f : TrackedFile) (merge : Digest) : Except Error (Digest × Digest) :=
  match f.get merge with
  | none => .error .invalidTrackedFile
  | some stored => match stored.parents with
      | [left, right] => .ok (left, right)
      | _ => .error .invalidTrackedFile

section

variable (f : TrackedFile) (left right : Digest) (label : String) (policy : FilePolicy)

/-- The scope owner or an ancestor, who wrote neither side, may refuse whatever the rules select. -/
def ownerRefuses : Except Error Bool :=
  if !isAncestorOrSelf label policy.scopeRoot then .ok false
  else do
    let ofLeft ← f.authored left label
    if ofLeft then .ok false
    else do
      let ofRight ← f.authored right label
      .ok (!ofRight)

/-- Whether `label` may refuse a merge of `left` and `right`. -/
def mayRefuse (ctx : TrustContext) : Except Error Bool := do
  let owner ← f.ownerRefuses left right label policy
  if owner then .ok true else f.mayDecide left right label policy ctx

end

/-- The checks of `reject_merge`: what it joins, and who refuses. -/
def rejectChecks (f : TrackedFile) (merge : Digest) (actor : NewEvent) (policy : FilePolicy)
    (ctx : TrustContext) : Except Error ((Digest × Digest) × String) := do
  let parents ← f.mergeParents merge
  if RevisionGraph.heads f.revisions ≠ [merge] || f.isRejected merge then .error .invalidTrackedFile
  else do
    let verdict ← f.evaluateRevisionTrust merge policy ctx
    if verdict = .trusted then .error .invalidTrackedFile
    else match actor.actorLabel with
      | none => .error .invalidTrackedFile
      | some label => do
          let refuses ← f.mayRefuse parents.1 parents.2 label policy ctx
          if refuses then .ok (parents, label) else .error .invalidTrackedFile

/-- `MERGE_REJECTED`: the actor's own time, identity and generation. -/
def rejectedEvent (merge : Digest) (actor : NewEvent) (parents : Digest × Digest)
    (label : String) : NewEvent :=
  { actor with
    revisionId := some merge
    eventType := .mergeRejected
    outcome := .denied
    details := ((EventDetails.new.withDetail "revision_a" (hexEncode parents.1.bytes)).withDetail
      "revision_b" (hexEncode parents.2.bytes)).withDetail "reviewer" label }

def rejectMerge (rng : Nat → Id16) (merge : Digest) (actor : NewEvent) (policy : FilePolicy)
    (ctx : TrustContext) : FileOp Unit := do
  let file ← Op.read
  let checked ← Op.lift (file.rejectChecks merge actor policy ctx)
  let _ ← append rng (rejectedEvent merge actor checked.1 checked.2)
  pure ()

/-! ## §5. All of it is built from the two growth steps. -/

omit [Crypto] [CharTable] in
theorem selectionEvent_safe (new : NewRevision) (selection : ResolverSelection) :
    (selectionEvent new selection).destroysContent = false := by
  unfold selectionEvent
  split <;> exact mergeEvent_safe (by decide)

section Moving

variable [IsPreorder TrackedFile R] {new : NewRevision} {policy : FilePolicy} (hR : StepClosed R)

include hR

theorem recordBridge_moves : Op.Moves R (recordBridge rng new ctx tied) := by
  unfold recordBridge
  split
  · exact (hR.append rng _ (mergeEvent_safe (by decide))).bind fun _ => .pure ()
  · exact .pure ()

theorem recordSelection_moves : Op.Moves R (recordSelection rng new ctx selection) := by
  unfold recordSelection
  split
  · exact (recordBridge_moves hR).bind fun _ =>
      (hR.append rng _ (selectionEvent_safe new _)).bind fun _ => .pure ()
  · exact (hR.append rng _ (selectionEvent_safe new _)).bind fun _ => .pure ()

theorem recordConflict_moves : Op.Moves R (recordConflict rng left right new policy ctx auto) :=
  .read_bind fun _ => .lift_bind fun selection =>
    (hR.append rng _ (mergeEvent_safe (by decide))).bind fun _ =>
    (hR.append rng _ (mergeEvent_safe (by decide))).bind fun _ =>
    (recordSelection_moves hR).bind fun _ => .pure _

theorem resolveDivergenceSteps_moves :
    Op.Moves R (resolveDivergenceSteps rng left right allowed new policy ctx) := by
  refine (autoMerge_moves hR).bind fun auto => ?_
  split
  · exact .pure _
  · refine .read_bind fun _ => .lift_bind fun relation => ?_
    split
    · exact .pure _
    · exact recordConflict_moves hR

theorem resolveConflictSteps_moves : Op.Moves R (resolveConflictSteps rng resolution new policy ctx) :=
  .read_bind fun _ => .lift_bind fun conflict => .lift_bind fun _ =>
    .require_bind <| .lift_bind fun _ => (hR.checkIn _ _).bind fun _ =>
    (hR.append rng _ (mergeEvent_safe (by decide))).bind fun _ => .pure _

theorem rejectMerge_moves : Op.Moves R (rejectMerge rng merge actor policy ctx) :=
  .read_bind fun _ => .lift_bind fun _ => (hR.append rng _ rfl).bind fun _ => .pure ()

end Moving

variable {new : NewRevision} {policy : FilePolicy} {left right : Digest}

theorem resolveDivergence_atomic :
    Op.Atomic (resolveDivergence rng left right allowed new policy ctx) :=
  atomically_atomic_of_grows (resolveDivergenceSteps_moves grows_stepClosed)

theorem resolveConflict_atomic :
    Op.Atomic (resolveConflict rng resolution new policy ctx) :=
  atomically_atomic_of_grows (resolveConflictSteps_moves grows_stepClosed)

omit [CharTable] in
theorem rejectMerge_atomic :
    Op.Atomic (rejectMerge rng merge actor policy ctx) :=
  .read_bind fun _ => .lift_bind fun _ => append_atomic.bind_pure fun _ => ()

end Selection

end TrackedFile

end KeyQuorum
