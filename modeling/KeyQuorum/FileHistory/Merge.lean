/-
  **AUTOMATIC THREE-WAY MERGE** of two divergent heads
  (`file_history/merge.rs`).

  Lines are matched by a longest-common-subsequence table, each side becomes
  a list of hunks against the base, and the hunks are laid over the base in
  order.  `auto_merge` plans, checks the result in and records two events,
  all inside `atomically`.
-/
import KeyQuorum.FileHistory.Growth
import Mathlib.Data.List.Sort

namespace KeyQuorum

open Foundation

def maxDiffCells : Nat := 4000000

inductive AutoMergeOutcome where
  | fastForward
  | alreadyEquivalent
  | cleanMerge
  | requiresHuman
  | policyBlocked
  | unsupportedContent
  deriving DecidableEq, Repr

/-- `AutoMerge`: what a merge attempt decided. -/
structure AutoMerge where
  outcome : AutoMergeOutcome
  reason : String
  mergeBase : Option Digest
  content : Option Bytes
  mergeRevision : Option Digest
  deriving DecidableEq, Repr

section

variable (outcome : AutoMergeOutcome) (reason : String) (base : Option Digest)

def AutoMerge.stop : AutoMerge :=
  ⟨outcome, reason, base, none, none⟩

def AutoMerge.withContent (content : Bytes) : AutoMerge :=
  ⟨outcome, reason, base, some content, none⟩

end

/-! ## §1. Matching lines. -/

section Lines

variable {α : Type} [DecidableEq α]

def commonLength : List α → List α → Nat
  | x :: xs, y :: ys => if x = y then commonLength xs ys + 1 else 0
  | _, _ => 0

/-- One row of the table, from the row below it: entry `j` is the longest match of this line and
the lines after it with the lines of `b` from `j` on. -/
def tableRow (x : α) : List α → List Nat → List Nat
  | [], _ => [0]
  | y :: ys, below =>
    let row := tableRow x ys below.tail
    (if x = y then below.tail.headD 0 + 1 else max (below.headD 0) (row.headD 0)) :: row

def matchTable : List α → List α → List (List Nat)
  | [], b => [List.replicate (b.length + 1) 0]
  | x :: a, b =>
    let rows := matchTable a b
    tableRow x b (rows.headD []) :: rows

/-- `table[i * width + j]`. -/
def tableCell (table : List (List Nat)) (i j : Nat) : Nat := (table.getD i []).getD j 0

/-- The walk through the table; every round advances `i` or `j`. -/
def matchWalk (a b : List α) (table : List (List Nat)) : Nat → Nat → Nat → List (Nat × Nat)
  | 0, _, _ => []
  | fuel + 1, i, j =>
    match a[i]?, b[j]? with
    | some x, some y =>
      if x = y then (i, j) :: matchWalk a b table fuel (i + 1) (j + 1)
      else if tableCell table (i + 1) j ≥ tableCell table i (j + 1) then
        matchWalk a b table fuel (i + 1) j
      else matchWalk a b table fuel i (j + 1)
    | _, _ => []

/-- `matches`: the common ends are trimmed off before the table is built; `none` when it would be
too big. -/
def lineMatches (a b : List α) : Option (List (Nat × Nat)) :=
  let first := commonLength a b
  let last := commonLength (a.drop first).reverse (b.drop first).reverse
  -- what both ends leave in the middle is all the table is built for
  let ma := (a.drop first).take (a.length - last - first)
  let mb := (b.drop first).take (b.length - last - first)
  if (ma.length + 1) * (mb.length + 1) > maxDiffCells then none
  else
    let middle := matchWalk ma mb (matchTable ma mb) (ma.length + mb.length) 0 0
    some ((List.range first).map (fun i => (i, i))
      ++ middle.map (fun pair => (first + pair.1, first + pair.2))
      ++ (List.range last).map (fun k => (a.length - last + k, b.length - last + k)))

/-- `Hunk`: base lines `start..stop` become `lines`. -/
structure Hunk (α : Type) where
  start : Nat
  stop : Nat
  lines : List α
  deriving DecidableEq, Repr

def Hunk.isInsertion (hunk : Hunk α) : Bool := hunk.start = hunk.stop

/-- The loop of `hunks`: one hunk for each gap before a match. -/
def hunksFrom (other : List α) (bi oi : Nat) : List (Nat × Nat) → List (Hunk α)
  | [] => []
  | (mb, mo) :: found =>
    let rest := hunksFrom other (mb + 1) (mo + 1) found
    if mb > bi || mo > oi then ⟨bi, mb, (other.drop oi).take (mo - oi)⟩ :: rest else rest

def hunks (base other : List α) : Option (List (Hunk α)) :=
  (lineMatches base other).map (fun found =>
    hunksFrom other 0 0 (found ++ [(base.length, other.length)]))

/-- `overlaps`: adjacent changes do not, two insertions at one point do. -/
def overlaps (a b : Hunk α) : Bool :=
  (a.start < b.stop && b.start < a.stop)
    || (a.isInsertion && b.isInsertion && a.start = b.start)

/-- The order `merge_text` lays hunks in: by start, then end, then the left side first. -/
def hunkBefore (a b : Hunk α × Bool) : Bool :=
  if a.1.start ≠ b.1.start then a.1.start < b.1.start
  else if a.1.stop ≠ b.1.stop then a.1.stop < b.1.stop
  else !(b.2 && !a.2)

/-- The merge loop: `none` on a conflict. -/
def layHunks (base : List α) (position : Nat) (last : Option (Hunk α)) :
    List (Hunk α) → Option (List α)
  | [] => some (base.drop position)
  | hunk :: rest =>
    -- a change both sides made is laid once
    if last = some hunk then layHunks base position last rest
    else if last.any (fun previous => overlaps previous hunk) then none
    else (layHunks base hunk.stop (some hunk) rest).map (fun out =>
      (base.drop position).take (hunk.start - position) ++ hunk.lines ++ out)

end Lines

inductive TextMerge where
  | clean (text : List Char)
  | conflict
  | tooLarge
  deriving DecidableEq, Repr

/-- `merge_text`: three-way merge by line. -/
def mergeText (base left right : List Char) : TextMerge :=
  let b := splitInclusive '\n' base
  match hunks b (splitInclusive '\n' left), hunks b (splitInclusive '\n' right) with
  | some leftHunks, some rightHunks =>
    let all := (leftHunks.map (fun h => (h, true)) ++ rightHunks.map (fun h => (h, false)))
      |>.insertionSort (fun a c => hunkBefore a c = true)
    match layHunks b 0 none (all.map Prod.fst) with
    | some out => .clean out.flatten
    | none => .conflict
  | _, _ => .tooLarge

example : mergeText "a\nb\nc\n".toList "a\nx\nb\nc\n".toList "a\nb\nz\n".toList
    = .clean "a\nx\nb\nz\n".toList := by decide +kernel

example : mergeText "a\nb\n".toList "a\nx\n".toList "a\ny\n".toList = .conflict := by
  decide +kernel

namespace TrackedFile

/-! ## §2. The plan. -/

/-- `graph.get(id).and_then(content)`. -/
def contentOf (f : TrackedFile) (id : Digest) : Option Bytes :=
  (f.get id).bind StoredRevision.payload

/-- The content merge of a divergence, once it is allowed and the contents differ. -/
def planTextMerge (f : TrackedFile) (left right : Digest) (leftBytes rightBytes : Bytes) :
    Except Error AutoMerge :=
  match RevisionGraph.mergeBase f.revisions left right with
  | .ambiguous => .ok (.stop .requiresHuman "AMBIGUOUS_MERGE_BASE" none)
  | .none => .ok (.stop .requiresHuman "NO_COMMON_ANCESTOR" none)
  | .unique base =>
    match f.contentOf base with
    | none => .error .invalidTrackedFile
    | some baseBytes =>
      match utf8? baseBytes, utf8? leftBytes, utf8? rightBytes with
      | some b, some l, some r =>
        .ok <| match mergeText b.toList l.toList r.toList with
          | .clean text =>
            .withContent .cleanMerge "THREE_WAY_TEXT" (some base) (utf8Bytes (String.ofList text))
          | .conflict => .stop .requiresHuman "OVERLAPPING_EDIT" (some base)
          | .tooLarge => .stop .unsupportedContent "TOO_LARGE" (some base)
      | _, _, _ => .ok (.stop .unsupportedContent "NOT_UTF8_TEXT" (some base))

def planRelated (f : TrackedFile) (left right : Digest) (allowed : Bool)
    (leftBytes rightBytes : Bytes) : HeadRelation → Except Error AutoMerge
  | .equal | .incomingBehind =>
    .ok (.withContent .fastForward "ANCESTOR_HEAD" (if left ≠ right then some right else none) leftBytes)
  | .incomingAhead => .ok (.withContent .fastForward "ANCESTOR_HEAD" (some left) rightBytes)
  | .diverged =>
    let heads := RevisionGraph.heads f.revisions
    if !heads.contains left || !heads.contains right then .error .invalidTrackedFile
    else if !allowed then .ok (.stop .policyBlocked "AUTO_MERGE_DISABLED" none)
    else if leftBytes = rightBytes then
      .ok (.withContent .alreadyEquivalent "IDENTICAL_CONTENT" none leftBytes)
    else f.planTextMerge left right leftBytes rightBytes

/-- The revision an automatic merge checks in: `left` and `right` are its parents. -/
def mergeRevisionOf (new : NewRevision) (left right : Digest) : NewRevision :=
  { new with parentRevisionIds := [left, right] }

/-- The events of `auto_merge_steps`: the author of the merge, at whole seconds. -/
def mergeEvent (new : NewRevision) (kind : HistoryEventType) (revisionId : Option Digest)
    (outcome : HistoryOutcome) (details : EventDetails) : NewEvent where
  revisionId := revisionId
  occurredAt := wholeSeconds new.createdAtUtc
  actorIdentity := new.authorIdentity
  actorLabel := some new.authorHcpLabel
  topologyGeneration := some new.topologyGeneration
  eventType := kind
  outcome := outcome
  details := details

/-- `AUTO_MERGE_ATTEMPTED`. -/
def attemptEvent (new : NewRevision) (left right : Digest) (result : AutoMerge) : NewEvent :=
  let attempt := (EventDetails.new.withDetail "left" (hexEncode left.bytes)).withDetail "right"
    (hexEncode right.bytes)
  mergeEvent new .autoMergeAttempted none .info <| match result.mergeBase with
    | some base => attempt.withDetail "base" (hexEncode base.bytes)
    | none => attempt

def outcomeEvent (new : NewRevision) (result : AutoMerge) : NewEvent :=
  let (kind, revision, outcome) : HistoryEventType × Option Digest × HistoryOutcome :=
    match result.outcome with
    | .fastForward => (.autoMergeFastForward, none, .success)
    | .alreadyEquivalent => (.autoMergeEquivalent, result.mergeRevision, .success)
    | .cleanMerge => (.autoMergeClean, result.mergeRevision, .success)
    | .policyBlocked | .unsupportedContent => (.autoMergeBlocked, none, .denied)
    | .requiresHuman => (.autoMergeRequiresHuman, none, .denied)
  let details := EventDetails.new.withDetail "reason" result.reason
  mergeEvent new kind revision outcome
    (if revision.isSome then details.withDetail "trust_state" "PENDING" else details)

section Merging

variable [Crypto] [CharTable]

/-- `plan_auto_merge`: decide, without changing anything. -/
def planAutoMerge (f : TrackedFile) (left right : Digest) (allowed : Bool) :
    Except Error AutoMerge :=
  match f.contentOf left, f.contentOf right with
  | some leftBytes, some rightBytes =>
    if !(verifyStructure f).isOk then .ok (.stop .requiresHuman "VERIFICATION_FAILED" none)
    else do
      let relation ← RevisionGraph.compare f.revisions left right
      f.planRelated left right allowed leftBytes rightBytes relation
  | _, _ => .error .invalidTrackedFile

/-! ## §3. Recording it. -/

def checkInMerge (left right : Digest) (new : NewRevision) (plan : AutoMerge) :
    FileOp (Option Digest) :=
  match plan.outcome, plan.content with
  | .cleanMerge, some content | .alreadyEquivalent, some content => do
      let id ← checkIn (mergeRevisionOf new left right) content
      pure (some id)
  | _, _ => pure plan.mergeRevision

section

variable (rng : Nat → Id16) (left right : Digest) (allowed : Bool) (new : NewRevision)

def autoMergeSteps : FileOp AutoMerge := do
  let file ← Op.read
  let plan ← Op.lift (file.planAutoMerge left right allowed)
  let mergeRevision ← checkInMerge left right new plan
  let result := { plan with mergeRevision }
  let _ ← append rng (attemptEvent new left right result)
  let _ ← append rng (outcomeEvent new result)
  pure result

def autoMerge : FileOp AutoMerge :=
  atomically (autoMergeSteps rng left right allowed new)

end

section

omit [Crypto] [CharTable]

theorem mergeEvent_safe {new : NewRevision} (h : kind ≠ .contentDestroyed) :
    (mergeEvent new kind revisionId outcome details).destroysContent = false := by
  simp [mergeEvent, NewEvent.destroysContent, h]

theorem attemptEvent_safe (new : NewRevision) (left right : Digest) (result : AutoMerge) :
    (attemptEvent new left right result).destroysContent = false :=
  mergeEvent_safe (by decide)

theorem outcomeEvent_safe (new : NewRevision) (result : AutoMerge) :
    (outcomeEvent new result).destroysContent = false := by
  refine mergeEvent_safe ?_
  cases result.outcome <;> simp

end

section Moving

variable [IsPreorder TrackedFile R] {left right : Digest} {new : NewRevision}

theorem checkInMerge_moves (hR : StepClosed R) : Op.Moves R (checkInMerge left right new plan) := by
  unfold checkInMerge
  split
  · exact (hR.checkIn _ _).bind fun _ => .pure _
  · exact (hR.checkIn _ _).bind fun _ => .pure _
  · exact .pure _

theorem autoMergeSteps_moves (hR : StepClosed R) :
    Op.Moves R (autoMergeSteps rng left right allowed new) :=
  .read_bind fun _ => .lift_bind fun _ =>
    (checkInMerge_moves hR).bind fun _ =>
    (hR.append rng _ (attemptEvent_safe new left right _)).bind fun _ =>
    (hR.append rng _ (outcomeEvent_safe new _)).bind fun _ => .pure _

theorem autoMerge_moves (hR : StepClosed R) : Op.Moves R (autoMerge rng left right allowed new) :=
  hR.atomically (autoMergeSteps_moves hR)

end Moving

theorem autoMerge_atomic {left right : Digest} {new : NewRevision} :
    Op.Atomic (autoMerge rng left right allowed new) :=
  atomically_atomic_of_grows (autoMergeSteps_moves grows_stepClosed)

end Merging

end TrackedFile

end KeyQuorum
