/-
  **HISTORIES ONLY GROW**: the order between a file and its later states, the
  rollback that relies on it (`atomically` in `file_history/merge.rs`), and
  what the two growth steps do to a well-formed file.
-/
import KeyQuorum.FileHistory.Verify

namespace KeyQuorum

open List Foundation

/-- Whether the event, once recorded, would destroy this container's content. -/
def NewEvent.destroysContent (new : NewEvent) : Bool :=
  new.eventType = .contentDestroyed && !new.details.entries.any (fun entry => entry.1 = "gate")

namespace TrackedFile

/-! ## §1. Extension and rollback. -/

/-- `g` is `f` with entries added at the ends of its lists. -/
structure Extends (f g : TrackedFile) : Prop where
  fileId : g.fileId = f.fileId
  logicalName : g.logicalName = f.logicalName
  policy : g.policy = f.policy
  revisions : f.revisions <+: g.revisions
  proofs : f.proofs <+: g.proofs
  events : f.events <+: g.events
  eventProofs : f.eventProofs <+: g.eventProofs

instance : IsPreorder TrackedFile Extends where
  refl _ :=
    ⟨rfl, rfl, rfl, prefix_rfl, prefix_rfl, prefix_rfl, prefix_rfl⟩
  trans _ _ _ hfg hgh := {
    fileId := hgh.fileId.trans hfg.fileId
    logicalName := hgh.logicalName.trans hfg.logicalName
    policy := hgh.policy.trans hfg.policy
    revisions := hfg.revisions.trans hgh.revisions
    proofs := hfg.proofs.trans hgh.proofs
    events := hfg.events.trans hgh.events
    eventProofs := hfg.eventProofs.trans hgh.eventProofs }

/-- The error path of `atomically`: truncate every list to the length it had. -/
def truncateTo (before after : TrackedFile) : TrackedFile :=
  { after with
    revisions := after.revisions.take before.revisions.length
    proofs := after.proofs.take before.proofs.length
    events := after.events.take before.events.length
    eventProofs := after.eventProofs.take before.eventProofs.length }

variable {f f' : TrackedFile} {r : FileRevision}

theorem truncateTo_eq (h : Extends f g) : truncateTo f g = f := by
  obtain ⟨hid, hname, hpolicy, hrev, hpro, hev, hep⟩ := h
  rw [prefix_iff_eq_take] at hrev hpro hev hep
  rw [truncateTo, hid, hname, hpolicy, ← hrev, ← hpro, ← hev, ← hep]

def atomically {α : Type} (steps : FileOp α) : FileOp α := Op.rollback truncateTo steps

/-- **Rollback by truncation is all or nothing** for steps that only extend. -/
theorem atomically_atomic {α : Type} {steps : FileOp α} (h : Op.Moves Extends steps) :
    Op.Atomic (atomically steps) :=
  .rollback h fun _ _ => truncateTo_eq

/-! ## §2. The two growth steps. -/

theorem CheckedIn.extends [Crypto] [CharTable] {new : NewRevision} {payload : Bytes} {id : Digest}
    (h : CheckedIn f new payload id f' r) : Extends f f' := by
  rw [h.result]
  exact ⟨rfl, rfl, rfl, prefix_append _ _, prefix_rfl, prefix_rfl, prefix_rfl⟩

variable {new : NewEvent} {event : HistoryEvent}

theorem Appended.extends [Crypto] (h : Appended f new event f') : Extends f f' := by
  rw [h.result]
  exact ⟨rfl, rfl, rfl, prefix_rfl, prefix_rfl, prefix_append _ _, prefix_rfl⟩

theorem Appended.destroys [Crypto]
    (h : Appended f new event f') : destroysThisContent event = new.destroysContent := by
  rw [destroysThisContent, h.eventType, h.details, NewEvent.destroysContent]

theorem isDestroyed_concat (f : TrackedFile) (event : HistoryEvent) :
    isDestroyed { f with events := f.events ++ [event] }
      = (f.isDestroyed || destroysThisContent event) := by
  simp [isDestroyed]

theorem oneRoot_concat (hl : OneRoot l) (h : stored.parents = [] ↔ l = []) :
    OneRoot (l ++ [stored]) := by
  cases l with
  | nil => exact ⟨h.mpr rfl, by simp⟩
  | cons root rest =>
    refine ⟨hl.1, fun other hmem => ?_⟩
    rcases mem_snoc.mp hmem with hmem | rfl
    · exact hl.2 other hmem
    · exact fun hnil => absurd (h.mp hnil) (by simp)

theorem eventProofWellFormed_append {events : List HistoryEvent}
    (h : eventProofWellFormed events proof = true) :
    eventProofWellFormed (events ++ more) proof = true := by
  unfold eventProofWellFormed at h
  split at h
  next event hevent =>
    have hlt := (List.getElem?_eq_some_iff.mp hevent).1
    rw [eventProofWellFormed, getElem?_append_left hlt, hevent]
    exact h
  next => cases h

theorem append_extends [Crypto] : Op.Moves Extends (append rng new) :=
  .of_atomic append_atomic fun _ _ _ h => (append_ok h).extends

section Invariant

variable [Crypto] [CharTable] {new : NewRevision} {payload : Bytes} {steps : FileOp α}

theorem checkedIn_wellFormed {id : Digest} (hf : WellFormed f) (h : CheckedIn f new payload id f' r) :
    WellFormed f' := by
  obtain ⟨hfile, hid, hlabel, hparents, hcommit⟩ := FileRevision.create_ok h.created
  rw [h.result]
  have hkeys : Dag.keys StoredRevision.id (f.revisions ++ [⟨r, some payload⟩])
      = Dag.keys StoredRevision.id f.revisions ∪ Dag.keys StoredRevision.id [⟨r, some payload⟩] :=
    Dag.keys_append _ _
  -- The events and their proofs are untouched; everything that reads the revisions is redone.
  refine { hf with
    revisionOk := ?_, parentsFirst := ?_, oneRoot := ?_, proofOk := ?_, gone := ?_, kept := ?_,
    eventRevision := ?_ }
  · intro stored hmem
    rcases mem_snoc.mp hmem with hmem | rfl
    · exact hf.revisionOk stored hmem
    · refine ⟨hfile, hid, hlabel, ?_, ?_⟩
      · show r.parentRevisionIds.Nodup
        exact hparents ▸ h.parents_nodup
      · rintro _ ⟨⟩
        exact hcommit
  · have hfresh : r.revisionId ∉ Dag.keys StoredRevision.id f.revisions := h.id_eq ▸ h.id_new
    exact Dag.parentsFirst_concat hf.parentsFirst hfresh (fun p hp => h.parents_known p (hparents ▸ hp))
  · refine oneRoot_concat hf.oneRoot ?_
    rw [← h.parents_empty, ← hparents]
    rfl
  · intro p hp
    obtain ⟨stored, hmem, hstored⟩ := hf.proofOk p hp
    exact ⟨stored, mem_append_left _ hmem, hstored⟩
  · intro hgone
    exact absurd (show f.isDestroyed = true from hgone) (by simp [h.live])
  · intro _ stored hmem
    rcases mem_snoc.mp hmem with hmem | rfl
    · exact hf.kept h.live stored hmem
    · rfl
  · intro e he eid heid
    rw [hkeys]
    exact .inl (hf.eventRevision e he eid heid)

/-- An event that does not change whether the content is destroyed keeps the file well formed. -/
theorem appended_wellFormed {new : NewEvent} (hf : WellFormed f) (h : Appended f new event f')
    (hsame : destroysThisContent event = true → f.isDestroyed = true) : WellFormed f' := by
  have hgone : isDestroyed { f with events := f.events ++ [event] } = f.isDestroyed := by
    rw [isDestroyed_concat]
    by_cases hevent : destroysThisContent event = true
    · rw [hsame hevent, Bool.true_or]
    · rw [Bool.not_eq_true _ |>.mp hevent, Bool.or_false]
  rw [h.result]
  refine { hf with
    gone := ?_, kept := ?_, eventRevision := ?_, eventProofOk := ?_, chain := ?_ }
  · exact fun hd => hf.gone (hgone ▸ hd)
  · exact fun hd => hf.kept (hgone ▸ hd)
  · intro e he id hid
    rcases mem_append.mp he with he | he
    · exact hf.eventRevision e he id hid
    · rw [mem_singleton.mp he, h.revisionId] at hid
      exact h.known id hid
  · exact fun p hp => eventProofWellFormed_append (hf.eventProofOk p hp)
  · exact hf.chain.concat (h.previous.trans f.historyRoot_eq_chainTip) h.sealed

/-! ## §3. Steps that grow a file. -/

/-- What a relation needs for every operation built from the two growth steps to respect it. -/
structure StepClosed (R : TrackedFile → TrackedFile → Prop) : Prop where
  checkIn : ∀ new payload, Op.Moves R (checkIn new payload)
  append : ∀ rng (new : NewEvent), new.destroysContent = false → Op.Moves R (append rng new)
  atomically : ∀ {α : Type} {steps : FileOp α}, Op.Moves R steps → Op.Moves R (atomically steps)

structure Grows (f g : TrackedFile) : Prop where
  extend : Extends f g
  keeps : WellFormed f → WellFormed g

instance : IsPreorder TrackedFile Grows where
  refl f := ⟨Std.Refl.refl f, id⟩
  trans _ _ _ hfg hgh := ⟨IsTrans.trans _ _ _ hfg.extend hgh.extend, hgh.keeps ∘ hfg.keeps⟩

theorem checkIn_grows :
    Op.Moves Grows (checkIn new payload) :=
  .of_atomic checkIn_atomic fun _ _ _ h => by
    obtain ⟨r, hr⟩ := checkIn_ok h
    exact ⟨hr.extends, fun hf => checkedIn_wellFormed hf hr⟩

theorem append_grows {new : NewEvent} (hsafe : new.destroysContent = false) :
    Op.Moves Grows (append rng new) :=
  .of_atomic append_atomic fun f _ _ h => by
    have happ := append_ok h
    refine ⟨happ.extends, fun hf => appended_wellFormed hf happ ?_⟩
    rw [happ.destroys, hsafe]
    exact fun hfalse => absurd hfalse (by simp)

omit [Crypto] [CharTable] in
/-- Rolling back steps whose every state extends the first: they moved, or nothing happened. -/
theorem atomically_moves [IsPreorder TrackedFile R] (hextends : ∀ f g, R f g → Extends f g)
    (h : Op.Moves R steps) : Op.Moves R (atomically steps) :=
  .rollback h fun f g hg => by
    rw [truncateTo_eq (hextends f g hg)]
    exact Std.Refl.refl f

theorem grows_stepClosed : StepClosed Grows where
  checkIn _ _ := checkIn_grows
  append _ _ hsafe := append_grows hsafe
  atomically := atomically_moves fun _ _ hg => hg.extend

theorem atomically_atomic_of_grows (h : Op.Moves Grows steps) :
    Op.Atomic (atomically steps) :=
  atomically_atomic fun f => (h f).extend

end Invariant

end TrackedFile

end KeyQuorum
