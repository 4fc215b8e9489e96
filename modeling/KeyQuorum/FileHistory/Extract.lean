/-
  **A COPY THAT HOLDS ONE REVISION AND ITS ANCESTORS** (`extract_revision`
  in `file_history/sync.rs`).

  What a sender delivers when a newer revision is not trusted: the newer
  revision's content and proofs never leave, and the events kept are a prefix
  of the chain, so the copy verifies by itself.
-/
import KeyQuorum.FileHistory.Growth

namespace KeyQuorum

open List Foundation
open RevisionGraph (ancestorSet heads mem_heads)

namespace TrackedFile

/-! ## §1. Pruning. -/

/-- Whether an event travels: it names a kept revision, or names none and is a rename. -/
def travels (kept : List Digest) (event : HistoryEvent) : Bool :=
  match event.revisionId with
  | some id => kept.contains id
  | none => event.eventType = .fileRenamed

/-- The copy that holds the kept revisions, their proofs, the events before the first that does
not travel, and the proofs of those events. -/
def prunedTo (f : TrackedFile) (kept : List Digest) : TrackedFile :=
  let events := f.events.takeWhile (travels kept)
  { f with
    revisions := f.revisions.filter (fun stored => kept.contains stored.id)
    proofs := f.proofs.filter (fun proof => kept.contains proof.revisionId)
    events
    eventProofs := f.eventProofs.filter (fun proof => proof.sequence.toNat < events.length) }

/-- `p` is `d` or an ancestor of it in the file. -/
def Ancestor (f : TrackedFile) (p d : Digest) : Prop :=
  Dag.Reach StoredRevision.id StoredRevision.parents f.revisions d p

section Extracting

variable [Crypto] [CharTable]

def extractRevision (f : TrackedFile) (revisionId : Digest) : Except Error TrackedFile :=
  if f.isDestroyed then .error .fileExpired
  else do
    let _ ← verifyStructure f
    match f.get revisionId with
    | none => .error .invalidTrackedFile
    | some _ => do
        let pruned := f.prunedTo (ancestorSet f.revisions revisionId)
        let _ ← verifyStructure pruned
        .ok pruned

/-! ## §2. The pruned copy. -/

/-- The ids an extraction keeps: known, closed under parents, and with an ancestor all share. -/
structure Closed (f : TrackedFile) (kept : List Digest) : Prop where
  parents : ∀ stored ∈ f.revisions, stored.id ∈ kept → ∀ p ∈ stored.parents, p ∈ kept
  root : ∀ stored ∈ f.revisions.head?, stored.id ∈ kept

variable {f : TrackedFile} {kept : List Digest}

section

omit [Crypto] [CharTable]

theorem mem_prunedTo :
    stored ∈ (f.prunedTo kept).revisions ↔ stored ∈ f.revisions ∧ stored.id ∈ kept := by
  simp [prunedTo]

theorem prunedTo_events (f : TrackedFile) (kept : List Digest) :
    (f.prunedTo kept).events <+: f.events := takeWhile_prefix _

theorem oneRoot_prunedTo (h : OneRoot f.revisions) (hroot : ∀ stored ∈ f.revisions.head?,
    stored.id ∈ kept) : OneRoot (f.prunedTo kept).revisions := by
  show OneRoot (f.revisions.filter (fun stored => kept.contains stored.id))
  cases hrevs : f.revisions with
  | nil => trivial
  | cons root rest =>
    rw [hrevs] at h hroot
    have hkeep : kept.contains root.id := by simpa using hroot root rfl
    rw [filter_cons, if_pos hkeep]
    exact ⟨h.1, fun stored hs => h.2 stored (mem_of_mem_filter hs)⟩

theorem eventProofWellFormed_prunedTo (hmem : proof ∈ (f.prunedTo kept).eventProofs)
    (h : eventProofWellFormed f.events proof) : eventProofWellFormed (f.prunedTo kept).events proof := by
  have hlt : proof.sequence.toNat < (f.prunedTo kept).events.length :=
    of_decide_eq_true (mem_filter.mp hmem).2
  have hsame : f.events[proof.sequence.toNat]? = (f.prunedTo kept).events[proof.sequence.toNat]? := by
    obtain ⟨rest, hrest⟩ := prunedTo_events f kept
    rw [← hrest, getElem?_append_left hlt]
  rw [eventProofWellFormed, ← hsame]
  exact h

theorem get_prunedTo (hx : x ∈ kept) : (f.prunedTo kept).get x = f.get x := by
  show (f.revisions.filter _).find? _ = f.revisions.find? _
  rw [find?_filter]
  congr 1
  funext stored
  by_cases hid : stored.id = x <;> simp [hid, hx]

theorem proofs_prunedTo (hx : x ∈ kept) :
    (f.prunedTo kept).proofs.filter (fun proof => proof.revisionId = x)
      = f.proofs.filter (fun proof => proof.revisionId = x) := by
  show (f.proofs.filter _).filter _ = _
  rw [filter_filter]
  congr 1
  funext proof
  by_cases hid : proof.revisionId = x <;> simp [hid, hx]

end

/-- **Pruning to a closed set of ids keeps the file well formed.** -/
theorem prunedTo_wellFormed (hf : WellFormed f) (hlive : f.isDestroyed = false)
    (hclosed : f.Closed kept) : WellFormed (f.prunedTo kept) := by
  have hpre := prunedTo_events f kept
  have hlive' : (f.prunedTo kept).isDestroyed = false := by
    rw [isDestroyed, any_eq_false] at hlive ⊢
    exact fun e he => hlive e (hpre.subset he)
  refine {
    revisionOk := fun stored hs => hf.revisionOk stored (mem_prunedTo.mp hs).1
    parentsFirst := ?_
    oneRoot := oneRoot_prunedTo hf.oneRoot hclosed.root
    proofOk := ?_
    slots := hf.slots.sublist filter_sublist
    gone := fun hgone => absurd (hlive'.symm.trans hgone) Bool.false_ne_true
    kept := fun _ stored hs => hf.kept hlive stored (mem_prunedTo.mp hs).1
    eventRevision := ?_
    eventProofOk := fun p hp => eventProofWellFormed_prunedTo hp
      (hf.eventProofOk p (mem_of_mem_filter hp))
    eventProofNodup := hf.eventProofNodup.sublist (filter_sublist.map _)
    chain := ?_ }
  · exact hf.parentsFirst.filter _ {id | id ∈ kept} (fun stored _ => by simp) hclosed.parents
  · intro p hp
    obtain ⟨hmem, hkept⟩ := mem_filter.mp hp
    obtain ⟨stored, hs, hid, hwf⟩ := hf.proofOk p hmem
    exact ⟨stored, mem_prunedTo.mpr ⟨hs, by simpa [hid] using hkept⟩, hid, hwf⟩
  · intro e he id hid
    obtain ⟨stored, hs, rfl⟩ := hf.eventRevision e (hpre.subset he) id hid
    have htravels := mem_takeWhile_imp he
    rw [travels, hid] at htravels
    exact ⟨stored, mem_prunedTo.mpr ⟨hs, by simpa using htravels⟩, rfl⟩
  · -- the kept events are a prefix, so no hash in them has to be recomputed
    obtain ⟨rest, hrest⟩ := hpre
    exact ChainOk.of_append (hrest ▸ hf.chain)

/-! ## §3. The extracted copy. -/

variable {id : Digest}

section

variable (hf : WellFormed f) (hid : id ∈ Dag.keys StoredRevision.id f.revisions)

include hf hid

theorem mem_ancestorSet : a ∈ ancestorSet f.revisions id ↔ f.Ancestor a id :=
  (RevisionGraph.mem_ancestorSet hf.parentsFirst).trans
    ⟨And.right, fun hr => ⟨hf.parentsFirst.reach_mem hid hr, hr⟩⟩

theorem ancestorSet_closed : f.Closed (ancestorSet f.revisions id) where
  parents := by
    intro stored hs hkept p hp
    rw [mem_ancestorSet hf hid] at hkept ⊢
    exact hkept.tail ⟨stored, hs, rfl, hp⟩
  root := by
    intro root hroot
    rw [mem_ancestorSet hf hid]
    obtain ⟨rest, hrevs⟩ : ∃ rest, f.revisions = root :: rest := head?_eq_some_iff.mp hroot
    -- the one root is an ancestor of every revision, so it is always kept
    have hpf := hf.parentsFirst
    have hone := hf.oneRoot
    rw [Ancestor]
    rw [hrevs] at hpf hone hid ⊢
    exact hpf.reach_root hone.2 hid

end

section

variable (hf : WellFormed f) (hlive : f.isDestroyed = false)
  (hid : id ∈ Dag.keys StoredRevision.id f.revisions)

include hf hlive hid

/-- **Every revision of a live, verified file can be extracted.** -/
theorem extractRevision_total :
    f.extractRevision id = .ok (f.prunedTo (ancestorSet f.revisions id)) := by
  obtain ⟨stored, hget⟩ := Option.isSome_iff_exists.mp (get_isSome.mpr hid)
  obtain ⟨root, hverify⟩ := verifyStructure_isOk.mpr hf
  obtain ⟨root', hverify'⟩ := verifyStructure_isOk.mpr
    (prunedTo_wellFormed hf hlive (ancestorSet_closed hf hid))
  unfold extractRevision
  rw [hlive, hverify, hget]
  simp only [Bool.false_eq_true, if_false, except_ok_bind, hverify']

theorem heads_prunedTo : heads (f.prunedTo (ancestorSet f.revisions id)).revisions = [id] := by
  have hg := prunedTo_wellFormed hf hlive (ancestorSet_closed hf hid)
  have hmem : ∀ {stored}, stored ∈ (f.prunedTo (ancestorSet f.revisions id)).revisions
      ↔ stored ∈ f.revisions ∧ f.Ancestor stored.id id := by
    intro stored
    rw [mem_prunedTo, mem_ancestorSet hf hid]
  have honly : ∀ x, x ∈ heads (f.prunedTo (ancestorSet f.revisions id)).revisions ↔ x = id := by
    intro x
    rw [mem_heads]
    constructor
    · rintro ⟨⟨stored, hs, rfl⟩, hfree⟩
      -- Anything else kept was reached through a kept child.
      rcases Relation.ReflTransGen.cases_tail (hmem.mp hs).2 with heq | ⟨d, hd, a, ha, rfl, hp⟩
      · exact heq
      · exact absurd hp (hfree a (hmem.mpr ⟨ha, hd⟩))
    · rintro rfl
      obtain ⟨stored, hs, rfl⟩ := hid
      refine ⟨⟨stored, hmem.mpr ⟨hs, .refl⟩, rfl⟩, fun a ha hp => ?_⟩
      exact hf.parentsFirst.no_cycle (hmem.mp ha).2 ⟨a, (hmem.mp ha).1, rfl, hp⟩
  have hnodup := hg.parentsFirst.nodup_keys.filter (fun x => !((f.prunedTo
    (ancestorSet f.revisions id)).revisions.flatMap StoredRevision.parents).contains x)
  refine perm_singleton.mp ((perm_ext_iff_of_nodup hnodup (nodup_singleton id)).mpr ?_)
  intro x
  rw [mem_singleton]
  exact honly x

end

end Extracting

end TrackedFile

end KeyQuorum
