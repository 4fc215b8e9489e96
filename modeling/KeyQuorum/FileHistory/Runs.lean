/-
  **WHOLE RUNS OF PUBLIC OPERATIONS.**

  `Operation` lists the methods a holder of a `TrackedFile` can call, with
  their arguments; `Call` adds the random event ids the call draws.  A call
  may fail, and the run goes on with whatever it left behind.
-/
import KeyQuorum.FileHistory.Container
import KeyQuorum.FileHistory.Expiry
import KeyQuorum.FileHistory.Resolve
import KeyQuorum.FileHistory.Signatures
import KeyQuorum.FileHistory.Union

namespace KeyQuorum

open List Foundation

/-! ## §1. Operations. -/

/-- A public method of `TrackedFile` that changes it, with its arguments. -/
inductive Operation where
  | checkIn (new : NewRevision) (payload : Bytes)
  | append (new : NewEvent)
  | signRevision (revisionId : Digest) (signerIdentity : Id16) (signerLabel : String)
      (secret : Digest)
  | countersignRevision (revisionId : Digest) (supervisorIdentity : Id16)
      (supervisorLabel : String) (secret : Digest)
  | countersignRevisionChecked (revisionId : Digest) (supervisorIdentity : Id16)
      (supervisorLabel : String) (secret : Digest) (ctx : TrustContext)
  | finalizeRevision (revisionId : Digest) (signerIdentity : Id16) (signerLabel : String)
      (secret : Digest)
  | coauthorRevision (revisionId : Digest) (coauthorIdentity : Id16) (coauthorLabel : String)
      (secret : Digest) (ctx : TrustContext)
  | attachCoauthorSignature (revisionId authorSignatureHash : Digest) (coauthorIdentity : Id16)
      (coauthorLabel : String) (signature : Signature)
  | signEvent (sequence : UInt64) (signerIdentity : Id16) (signerLabel : String) (secret : Digest)
  | autoMerge (left right : Digest) (allowed : Bool) (new : NewRevision)
  | resolveDivergence (left right : Digest) (allowed : Bool) (new : NewRevision)
      (policy : FilePolicy) (ctx : TrustContext)
  | resolveConflict (resolution : Resolution) (new : NewRevision) (policy : FilePolicy)
      (ctx : TrustContext)
  | rejectMerge (merge : Digest) (actor : NewEvent) (policy : FilePolicy) (ctx : TrustContext)
  | mergeHistory (other : TrackedFile) (context : ImportContext)
  | scheduleExpiry (instant : String) (context : ExpiryContext)
  | destroyContent (reason : String) (context : ExpiryContext)
  | expireIfDue (now : String) (context : ExpiryContext)
  | recordExpiredAccess (action : String) (context : ExpiryContext)

/-- Appending this container's own `CONTENT_DESTROYED` by hand is left to `destroy_content`. -/
def Operation.Allowed : Operation → Prop
  | .append new => new.destroysContent = false
  | _ => True

namespace TrackedFile

section Running

variable [Crypto] [CharTable]

def exec (rng : Nat → Id16) : Operation → FileOp Unit
  | .checkIn new payload => Op.void (checkIn new payload)
  | .append new => Op.void (append rng new)
  | .signRevision id identity label secret => signRevision id identity label secret
  | .countersignRevision id identity label secret => countersignRevision id identity label secret
  | .countersignRevisionChecked id identity label secret ctx =>
    countersignRevisionChecked id identity label secret ctx
  | .finalizeRevision id identity label secret => finalizeRevision id identity label secret
  | .coauthorRevision id identity label secret ctx => coauthorRevision id identity label secret ctx
  | .attachCoauthorSignature id authorHash identity label signature =>
    attachCoauthorSignature id authorHash identity label signature
  | .signEvent sequence identity label secret => signEvent sequence identity label secret
  | .autoMerge left right allowed new => Op.void (autoMerge rng left right allowed new)
  | .resolveDivergence left right allowed new policy ctx =>
    Op.void (resolveDivergence rng left right allowed new policy ctx)
  | .resolveConflict resolution new policy ctx =>
    Op.void (resolveConflict rng resolution new policy ctx)
  | .rejectMerge merge actor policy ctx => rejectMerge rng merge actor policy ctx
  | .mergeHistory other context => Op.void (mergeHistory rng other context)
  | .scheduleExpiry instant context => scheduleExpiry rng instant context
  | .destroyContent reason context => Op.void (destroyContent rng reason context)
  | .expireIfDue now context => Op.void (expireIfDue rng now context)
  | .recordExpiredAccess action context => recordExpiredAccess rng action context

/-! ## §2. A failed call. -/

theorem exec_atomic (rng : Nat → Id16) (op : Operation) : Op.Atomic (exec rng op) := by
  cases op with
  | checkIn => exact checkIn_atomic.void
  | append => exact append_atomic.void
  | signRevision => exact signRevision_atomic
  | countersignRevision =>
    exact countersignRevisionChecked_atomic
  | countersignRevisionChecked =>
    exact countersignRevisionChecked_atomic
  | finalizeRevision =>
    exact finalizeRevision_atomic
  | coauthorRevision =>
    exact coauthorRevision_atomic
  | attachCoauthorSignature =>
    exact attachCoauthorSignature_atomic
  | signEvent => exact signEvent_atomic
  | autoMerge => exact autoMerge_atomic.void
  | resolveDivergence =>
    exact resolveDivergence_atomic.void
  | resolveConflict =>
    exact resolveConflict_atomic.void
  | rejectMerge => exact rejectMerge_atomic
  | mergeHistory => exact mergeHistory_atomic.void
  | scheduleExpiry => exact scheduleExpiry_atomic
  | destroyContent => exact destroyContent_atomic.void
  | expireIfDue => exact expireIfDue_atomic.void
  | recordExpiredAccess => exact recordExpiredAccess_atomic

/-- **All or nothing**: a call that returns an error leaves every part of the file as it was. -/
theorem exec_error_unchanged (rng : Nat → Id16) (op : Operation) {f f' : TrackedFile} {e : Error}
    (h : exec rng op f = (.error e, f')) : f' = f := by
  have hsame := exec_atomic rng op f e (by rw [h])
  rwa [h] at hsame

end Running

section

attribute [local instance] Sample.crypto CharTable.ascii
open Sample

theorem exec_error_unchanged_sample :
    ∃ f', exec importIds (.mergeHistory (file [rival] [] [] []) importer)
        (file [root] [] [] []) = (.error .invalidTrackedFile, f')
      ∧ f' = file [root] [] [] [] := by
  have hrun : exec importIds (.mergeHistory (file [rival] [] [] []) importer)
      (file [root] [] [] []) = (.error .invalidTrackedFile, (exec importIds
        (.mergeHistory (file [rival] [] [] []) importer)
        (file [root] [] [] [])).2) := Op.run_eq (by decide +kernel)
  exact ⟨_, hrun, exec_error_unchanged importIds _ hrun⟩

end

section Running

variable [Crypto] [CharTable]

/-! ## §3. One step. -/

/-- What a relation needs for every call to respect it, given one that growth respects: a call grows the
file, adds a signature, imports a copy or destroys the content. -/
structure CallClosed (G R : TrackedFile → TrackedFile → Prop) : Prop where
  grown : ∀ {f g}, G f g → R f g
  signed : ∀ {f g}, SignedInto f g → R f g
  eventSigned : ∀ {f proof g}, EventSigned f proof g → R f g
  imported : ∀ {rng other context result f g},
    mergeHistory rng other context f = (.ok result, g) → R f g
  destroyed : ∀ {rng reason context n f g},
    destroyContent rng reason context f = (.ok n, g) → R f g

/-- **The step**: what a call does to the file, whether it succeeds or fails. -/
theorem exec_moves [IsPreorder TrackedFile G] (hG : StepClosed G) (hR : CallClosed G R)
    (happend : ∀ new, op = .append new → Op.Moves G (append rng new)) (f : TrackedFile) :
    R f (exec rng op f).2 := by
  have hkept : R f f := hR.grown (Std.Refl.refl f)
  have hgrown {α : Type} {m : FileOp α} (hm : Op.Moves G m) : R f (m f).2 := hR.grown (hm f)
  -- of an all-or-nothing call only the successes have to be looked at
  have hdone {α : Type} {m : FileOp α} (hm : Op.Atomic m)
      (hok : ∀ a g, m f = (.ok a, g) → R f g) : R f (m f).2 := hm.invariant hkept hok
  cases op with
  | checkIn => exact hgrown (hG.checkIn _ _)
  | append new => exact hgrown (happend new rfl)
  | signRevision => exact hdone signRevision_atomic fun _ _ h => hR.signed (signRevision_ok h)
  | countersignRevision | countersignRevisionChecked =>
    exact hdone countersignRevisionChecked_atomic fun _ _ h =>
      hR.signed (countersignRevisionChecked_ok h)
  | finalizeRevision => exact hdone finalizeRevision_atomic fun _ _ h => hR.signed (finalizeRevision_ok h)
  | coauthorRevision => exact hdone coauthorRevision_atomic fun _ _ h => hR.signed (coauthorRevision_ok h)
  | attachCoauthorSignature =>
    refine hdone attachCoauthorSignature_atomic fun _ g h => ?_
    rcases attachCoauthorSignature_ok h with rfl | hsigned
    · exact hkept
    · exact hR.signed hsigned
  | signEvent =>
    refine hdone signEvent_atomic fun _ g h => ?_
    obtain ⟨proof, hsigned⟩ := signEvent_ok h
    exact hR.eventSigned hsigned
  | autoMerge => exact hgrown (autoMerge_moves hG)
  | resolveDivergence => exact hgrown (hG.atomically (resolveDivergenceSteps_moves hG))
  | resolveConflict => exact hgrown (hG.atomically (resolveConflictSteps_moves hG))
  | rejectMerge => exact hgrown (rejectMerge_moves hG)
  | mergeHistory other context =>
    exact hdone (m := mergeHistory rng other context) mergeHistory_atomic fun _ _ => hR.imported
  | scheduleExpiry => exact hgrown (scheduleExpiry_moves hG)
  | destroyContent reason context =>
    exact hdone (m := destroyContent rng reason context) destroyContent_atomic fun _ _ => hR.destroyed
  | expireIfDue now context =>
    refine hdone (m := expireIfDue rng now context) expireIfDue_atomic fun due g h => ?_
    have hrun := Op.read_bind_ok h
    split at hrun
    · exact (Op.pure_ok hrun).2 ▸ hkept
    · obtain ⟨n, mid, hdestroy, hrest⟩ := Op.bind_ok hrun
      exact (Op.pure_ok hrest).2 ▸ hR.destroyed hdestroy
  | recordExpiredAccess => exact hgrown (recordExpiredAccess_moves hG)

theorem wellFormed_callClosed : CallClosed Grows fun f g => WellFormed f → WellFormed g where
  grown := Grows.keeps
  signed h hf := signedInto_wellFormed hf h
  eventSigned h hf := eventSigned_wellFormed hf h
  imported h _ := (mergeHistory_ok h).wellFormed
  destroyed h _ := destroyContent_wellFormed h

/-- An allowed call keeps a well-formed file well formed. -/
theorem exec_wellFormed (rng : Nat → Id16) (hop : op.Allowed)
    (hf : WellFormed f) : WellFormed (exec rng op f).2 := by
  refine exec_moves grows_stepClosed wellFormed_callClosed ?_ f hf
  rintro new rfl
  exact append_grows hop

/-! ## §4. Runs. -/

structure Call where
  rng : Nat → Id16
  operation : Operation

def Call.after (call : Call) (f : TrackedFile) : TrackedFile := (exec call.rng call.operation f).2

def states (f : TrackedFile) : List Call → List TrackedFile
  | [] => [f]
  | call :: rest => f :: states (call.after f) rest

/-- Where a run may start: a new file, one with a policy, or one a container decoded to. -/
inductive Starts : TrackedFile → Prop where
  | new (fileId : Id16) (logicalName : String) : Starts (TrackedFile.new fileId logicalName)
  | withPolicy (fileId : Id16) (logicalName : String) (policy : FilePolicy) :
      Starts (TrackedFile.withPolicy fileId logicalName policy)
  | decoded {bytes : Bytes} {f : TrackedFile} (h : TrackedFile.decode bytes = .ok f) : Starts f

theorem empty_wellFormed (hrevisions : f.revisions = []) (hproofs : f.proofs = [])
    (hevents : f.events = []) (heventProofs : f.eventProofs = []) : WellFormed f := by
  constructor
  all_goals simp only [hrevisions, hproofs, hevents, heventProofs, not_mem_nil, false_implies,
    implies_true, map_nil, nodup_nil]
  · trivial
  · trivial
  · exact Slots.ok_nil
  · exact ⟨trivial, by simp⟩

theorem Starts.wellFormed (h : Starts f) : WellFormed f := by
  cases h with
  | new => exact empty_wellFormed rfl rfl rfl rfl
  | withPolicy => exact empty_wellFormed rfl rfl rfl rfl
  | decoded h => exact (verifyStructure_ok_iff.mp (decode_ok h).2).1

theorem states_wellFormed (hcalls : ∀ call ∈ calls, call.operation.Allowed) (hf : WellFormed f) :
    ∀ g ∈ states f calls, WellFormed g := by
  -- Induction on the calls, from any well-formed file: the step lemma carries it along.
  induction calls generalizing f with
  | nil =>
    intro g hg
    rw [mem_singleton.mp hg]
    exact hf
  | cons call rest ih =>
    intro g hg
    rcases mem_cons.mp hg with rfl | hg
    · exact hf
    · have hstep : WellFormed (call.after f) :=
        exec_wellFormed call.rng (hcalls call (.head _)) hf
      exact ih (fun c hc => hcalls c (mem_cons_of_mem call hc)) hstep g hg

/-- **The run**: from a new or decoded file, after any number of allowed calls that succeed or
fail, every state passes `verify_structure`. -/
theorem states_verify {f : TrackedFile} (hstart : Starts f) {calls : List Call}
    (hcalls : ∀ call ∈ calls, call.operation.Allowed) :
    ∀ g ∈ states f calls, ∃ root, verifyStructure g = .ok root := by
  intro g hg
  exact verifyStructure_isOk.mpr (states_wellFormed hcalls hstart.wellFormed g hg)

end Running

end TrackedFile

namespace Sample

/-- The owner's first calls: check in, record it, and a refused import. -/
def calls : List TrackedFile.Call :=
  [⟨importIds, .checkIn ⟨[], none, some owner, "M.S", "2026-10-02T14:32:05Z", 1, policyHash⟩
      (utf8Bytes "one")⟩,
    ⟨fun _ => .ofNat 16 0xe0, .append ⟨some root.id, "2026-10-02T14:32:05Z", some owner, some "M.S",
      some 1, .trackingStarted, .success, .new⟩⟩,
    ⟨importIds, .mergeHistory (file [rival] [] [] []) importer⟩]

end Sample

namespace TrackedFile

attribute [local instance] Sample.crypto CharTable.ascii
open Sample

theorem states_verify_sample :
    (states (withPolicy Sample.fileId "notes.txt" Sample.policy) calls).map
        (fun g => (g.revisions, g.events))
      = [([], []), ([root], []), ([root], [opened]), ([root], [opened])]
      ∧ ∀ g ∈ states (withPolicy Sample.fileId "notes.txt" Sample.policy) calls,
        ∃ root, verifyStructure g = .ok root := by
  refine ⟨by decide +kernel, states_verify (.withPolicy _ _ _) ?_⟩
  intro call hcall
  simp only [calls, mem_cons, not_mem_nil, or_false] at hcall
  rcases hcall with rfl | rfl | rfl
  · trivial
  · rfl
  · trivial

end TrackedFile

end KeyQuorum
