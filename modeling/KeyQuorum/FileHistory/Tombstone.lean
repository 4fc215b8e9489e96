/-
  **DESTRUCTION IS FINAL.**

  Whether the content is destroyed is read off the event list, and every
  operation that could bring content back has a guard of its own: `check_in`
  refuses a destroyed file, `merge_history` refuses one on either side, and
  `destroy_content` refuses to run twice.
-/
import KeyQuorum.FileHistory.Runs

namespace KeyQuorum

open List Foundation

namespace TrackedFile

/-! ## §1. The revisions of a destroyed file stand still. -/

structure Settles (f g : TrackedFile) : Prop where
  extend : Extends f g
  still : f.isDestroyed = true → g.revisions = f.revisions

theorem Extends.isDestroyed (h : Extends f g) (hd : f.isDestroyed = true) : g.isDestroyed = true := by
  obtain ⟨more, hmore⟩ := h.events
  unfold TrackedFile.isDestroyed at hd ⊢
  rw [← hmore, any_append, hd, Bool.true_or]

instance : IsPreorder TrackedFile Settles where
  refl f := ⟨Std.Refl.refl f, fun _ => rfl⟩
  trans _ _ _ hfg hgh :=
    ⟨IsTrans.trans _ _ _ hfg.extend hgh.extend,
      fun hd => (hgh.still (hfg.extend.isDestroyed hd)).trans (hfg.still hd)⟩

variable {f : TrackedFile}

/-- Still destroyed, with the revisions `f` had. -/
def StillDestroyed (f g : TrackedFile) : Prop := g.isDestroyed = true ∧ g.revisions = f.revisions

section Steps

variable [Crypto] {rng : Nat → Id16}

theorem append_settles {new : NewEvent} : Op.Moves Settles (append rng new) := by
  refine .of_atomic append_atomic ?_
  intro f event f' h
  have happ := append_ok h
  refine ⟨happ.extends, fun _ => ?_⟩
  rw [happ.result]

variable [CharTable]

theorem checkIn_settles {new : NewRevision} :
    Op.Moves Settles (checkIn new payload) := by
  refine .of_atomic checkIn_atomic ?_
  intro f id f' h
  obtain ⟨r, hr⟩ := checkIn_ok h
  -- a destroyed file would have been refused
  exact ⟨hr.extends, fun hd => absurd (hr.live.symm.trans hd) (by simp)⟩

theorem settles_stepClosed : StepClosed Settles where
  checkIn _ _ := checkIn_settles
  append _ _ _ := append_settles
  atomically := atomically_moves fun _ _ h => h.extend

/-! ## §2. One step. -/

theorem destroyed_callClosed :
    CallClosed Settles fun f g => f.isDestroyed = true → StillDestroyed f g where
  grown h hd := ⟨h.extend.isDestroyed hd, h.still hd⟩
  signed := by
    rintro f g ⟨proof, -, hadded⟩ hd
    rw [hadded.result]
    exact ⟨hd, rfl⟩
  eventSigned h hd := by
    rw [h.result]
    exact ⟨hd, rfl⟩
  -- a success of either would mean that the file was live
  imported h hd := absurd ((mergeHistory_ok h).importable.live.symm.trans hd) (by simp)
  destroyed h hd := by
    obtain ⟨hlive, -⟩ := Op.require_bind_ok (Op.read_bind_ok h)
    rw [hd] at hlive
    cases hlive

/-- No call, whether it succeeds or fails, revives a destroyed file. -/
theorem exec_destroyed (hd : f.isDestroyed = true) : StillDestroyed f (exec rng op f).2 :=
  exec_moves settles_stepClosed destroyed_callClosed (fun _ _ => append_settles) f hd

/-- A destroyed file stays well formed under every call, a second `CONTENT_DESTROYED` appended by
hand included. -/
theorem exec_destroyed_wellFormed (hd : f.isDestroyed = true) (hf : WellFormed f) :
    WellFormed (exec rng op f).2 := by
  by_cases hop : op.Allowed
  · exact exec_wellFormed rng hop hf
  · cases op with
    | append new =>
      refine append_atomic.void.invariant hf ?_
      intro u f' h
      have hrun : (append rng new f).2 = f' := (Prod.mk.inj h).2
      cases hres : (append rng new f).1 with
      | error e => rw [← hrun, append_atomic f e hres]; exact hf
      | ok event =>
        have happ := append_ok (Op.run_eq hres)
        rw [hrun] at happ
        exact appended_wellFormed hf happ fun _ => hd
    | _ => exact absurd trivial hop

/-! ## §3. Runs. -/

/-- **Destruction is final**: in every state after any calls the file is still destroyed and its
revisions are the ones it had; if it verified, it still does, and holds no payload. -/
theorem destroyed_forever (hd : f.isDestroyed = true) (calls : List Call) :
    ∀ g ∈ states f calls, g.isDestroyed = true ∧ g.revisions = f.revisions
      ∧ ((∃ root, verifyStructure f = .ok root) →
        (∀ stored ∈ g.revisions, stored.payload = none) ∧ ∃ root, verifyStructure g = .ok root) := by
  -- Induction on the calls, from any destroyed file: one call leaves a destroyed file with the
  -- same revisions behind, so what holds from there holds from the start.
  induction calls generalizing f with
  | nil =>
    intro g hg
    rw [mem_singleton.mp hg]
    refine ⟨hd, rfl, fun hverify => ⟨?_, hverify⟩⟩
    exact (verifyStructure_isOk.mp hverify).gone hd
  | cons call rest ih =>
    intro g hg
    rcases mem_cons.mp hg with rfl | hg
    · refine ⟨hd, rfl, fun hverify => ⟨?_, hverify⟩⟩
      exact (verifyStructure_isOk.mp hverify).gone hd
    · obtain ⟨hstill, hsame⟩ := exec_destroyed hd
      obtain ⟨hgone, hrevisions, hverified⟩ := ih hstill g hg
      refine ⟨hgone, hrevisions.trans hsame, fun hverify => hverified ?_⟩
      exact verifyStructure_isOk.mpr (exec_destroyed_wellFormed hd (verifyStructure_isOk.mp hverify))

end Steps

end TrackedFile

namespace Sample

def wiped : StoredRevision := { root with payload := none }

def destroyed : HistoryEvent :=
  event 0xe2 1 none opened.eventHash 0x364593ee1b1d1577f5175d612f64c1eefa24f2068d9b28c75274c328326a8097
    "2026-10-05T00:00:00Z" .contentDestroyed

def late : HistoryEvent :=
  event 0xe3 2 none destroyed.eventHash
    0x0b12dcee214db93985f433a7cc4a013cbc858aa534e79b4838d1e02c6266611d
    "2026-10-06T08:00:00Z" .fileRenamed

def tombstone : TrackedFile := file [wiped] [] [opened, destroyed] []

@[reducible] def tombstoneCrypto : Crypto :=
  .known (hashes ++ [destroyed, late].map (fun e => (historyDomain ++ bytesOf e.body, e.eventHash))) []

/-- An edit and an import, both refused, and an event that is recorded. -/
def lateCalls : List TrackedFile.Call :=
  [⟨importIds, .checkIn ⟨[root.id], none, some owner, "M.S", "2026-10-06T08:00:00Z", 1, policyHash⟩
      (utf8Bytes "one")⟩,
    ⟨importIds, .mergeHistory rightCopy importer⟩,
    ⟨fun _ => .ofNat 16 0xe3, .append ⟨none, "2026-10-06T08:00:00Z", some owner, some "M.S",
      some 1, .fileRenamed, .success, .new⟩⟩]

end Sample

namespace TrackedFile

attribute [local instance] Sample.tombstoneCrypto CharTable.ascii
open Sample

theorem destroyed_forever_sample :
    (states tombstone lateCalls).map (·.events) = [[opened, destroyed], [opened, destroyed],
        [opened, destroyed], [opened, destroyed, late]]
      ∧ ∀ g ∈ states tombstone lateCalls, g.isDestroyed = true ∧ g.revisions = [wiped]
          ∧ ∃ root, verifyStructure g = .ok root := by
  refine ⟨by decide +kernel, fun g hg => ?_⟩
  have hdestroyed : tombstone.isDestroyed = true := by decide +kernel
  obtain ⟨hd, hsame, hverified⟩ := destroyed_forever hdestroyed lateCalls g hg
  exact ⟨hd, hsame, (hverified ⟨destroyed.eventHash, by decide +kernel⟩).2⟩

end TrackedFile

end KeyQuorum
