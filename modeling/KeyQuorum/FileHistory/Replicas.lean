/-
  **ANY NUMBER OF COPIES OF ONE FILE**, importing from each other in any order
  (`merge_history` in `file_history/sync.rs`).

  No revision is ever edited, so copies are sets that only grow: a copy holds
  the union of the copies that have reached it, directly or through others.
-/
import KeyQuorum.FileHistory.ImportTrust
import KeyQuorum.Foundation.Runs

namespace KeyQuorum.TrackedFile

open List Foundation

section Copies

variable [Crypto] [CharTable]

/-! ## §1. Copies. -/

/-- What all copies of a file have in common; `messages` are the ones their revisions hash. -/
structure Origin where
  fileId : Id16
  policy : Option FilePolicy
  root : Digest
  messages : List Bytes

/-- A live, verified copy. -/
structure IsCopy (o : Origin) (f : TrackedFile) : Prop where
  fileId : f.fileId = o.fileId
  policy : f.policy = o.policy
  live : f.isDestroyed = false
  wellFormed : WellFormed f
  root : ∀ stored ∈ f.revisions, stored.parents = [] → stored.id = o.root
  hashed : revisionMessages f ⊆ o.messages

variable {o : Origin} {a b : TrackedFile}

theorem IsCopy.first (h : IsCopy o f) : ∀ first ∈ f.revisions.head?, first.id = o.root := by
  intro first hfirst
  obtain ⟨rest, hrevs⟩ : ∃ rest, f.revisions = first :: rest := head?_eq_some_iff.mp hfirst
  have hone := h.wellFormed.oneRoot
  rw [hrevs] at hone
  exact h.root first (hrevs ▸ .head _) hone.1

theorem IsCopy.copies (ha : IsCopy o a) (hb : IsCopy o b) (hfree : CollisionFree o.messages) :
    Copies a b where
  fileId := ha.fileId.trans hb.fileId.symm
  policy := ha.policy.trans hb.policy.symm
  live := ha.live
  otherLive := hb.live
  wellFormed := ha.wellFormed
  otherWellFormed := hb.wellFormed
  roots rootA hrootA rootB hrootB := (ha.first rootA hrootA).trans (hb.first rootB hrootB).symm
  collisionFree := hfree.mono (append_subset.mpr ⟨ha.hashed, hb.hashed⟩)

theorem IsCopy.imported (ha : IsCopy o a) (hb : IsCopy o b) (h : Imported a b result a') :
    IsCopy o a' where
  fileId := h.extend.fileId.trans ha.fileId
  policy := h.extend.policy.trans ha.policy
  live := h.live
  wellFormed := h.wellFormed
  root stored hstored := (h.mem_revisions.mp hstored).elim (ha.root stored) (hb.root stored)
  hashed _ hm := append_subset.mpr ⟨ha.hashed, hb.hashed⟩ (h.messages hm)

/-! ## §2. Exchanges. -/

/-- The copy of `into` imports that of `source`. -/
structure Exchange (ι : Type) where
  into : ι
  source : ι
  rng : Nat → Id16
  context : ImportContext

abbrev Exchange.Fits {ι : Type} (e : Exchange ι) : Prop :=
  FitsField e.context.actorLabel ∧ FitsField e.context.occurredAt

variable {ι : Type} [DecidableEq ι]

def exchange (copies : ι → TrackedFile) (e : Exchange ι) : ι → TrackedFile :=
  Function.update copies e.into (mergeHistory e.rng (copies e.source) e.context (copies e.into)).2

/-- Whose first copies have reached whom. -/
def reach (known : ι → Set ι) (e : Exchange ι) : ι → Set ι :=
  Function.update known e.into (known e.into ∪ known e.source)

/-- The copy of `i` holds the revisions of the copies that have reached it. -/
structure Holds (o : Origin) (start : ι → TrackedFile) (i : ι) (f : TrackedFile) (known : Set ι) :
    Prop where
  copy : IsCopy o f
  grown : Extends (start i) f
  holds : ∀ stored, stored ∈ f.revisions ↔ ∃ k ∈ known, stored ∈ (start k).revisions

/-- **The step.** -/
theorem exchange_holds (hfree : CollisionFree o.messages) (h : ∀ i, Holds o start i (copies i) (known i))
    {e : Exchange ι} (hfits : e.Fits) (i : ι) :
    Holds o start i (exchange copies e i) (reach known e i) := by
  obtain ⟨result, a', hmerge, himported⟩ :=
    ((h e.into).copy.copies (h e.source).copy hfree).merge e.rng hfits.1 hfits.2
  unfold exchange reach
  rw [hmerge]
  by_cases hi : i = e.into
  · subst hi
    rw [Function.update_self, Function.update_self]
    refine ⟨(h e.into).copy.imported (h e.source).copy himported,
      IsTrans.trans _ _ _ (h e.into).grown himported.extend, fun stored => ?_⟩
    rw [himported.mem_revisions, (h e.into).holds, (h e.source).holds]
    simp only [Set.mem_union, or_and_right, exists_or]
  · rw [Function.update_of_ne hi, Function.update_of_ne hi]
    exact h i

theorem exchanges_hold (hfree : CollisionFree o.messages) (h : ∀ i, Holds o start i (copies i) (known i))
    {exchanges : List (Exchange ι)} (hfits : ∀ e ∈ exchanges, e.Fits) (i : ι) :
    Holds o start i (Runs.run exchange copies exchanges i) (Runs.run reach known exchanges i) := by
  induction exchanges generalizing copies known with
  | nil => exact h i
  | cons e rest ih =>
    exact ih (exchange_holds hfree h (hfits e (.head _))) fun e he => hfits e (mem_cons_of_mem _ he)

/-- **Copies converge.**  Whatever imports any number of holders make in whatever order, every copy
verifies, has lost no trust, and holds exactly the revisions of the copies that have reached it, so
that copies reached by the same ones have the same heads. -/
theorem exchanges_converge (hfree : CollisionFree o.messages) (start : ι → TrackedFile)
    (hstart : ∀ i, IsCopy o (start i)) (exchanges : List (Exchange ι))
    (hfits : ∀ e ∈ exchanges, e.Fits) (i : ι) :
    (∃ tip, verifyStructure (Runs.run exchange start exchanges i) = .ok tip)
      ∧ (∀ id policy ctx, (start i).evaluateRevisionTrust id policy ctx = .ok .trusted →
        (Runs.run exchange start exchanges i).evaluateRevisionTrust id policy ctx = .ok .trusted)
      ∧ (∀ stored, stored ∈ (Runs.run exchange start exchanges i).revisions
        ↔ ∃ k ∈ Runs.run reach (fun i => {i}) exchanges i, stored ∈ (start k).revisions)
      ∧ ∀ j, Runs.run reach (fun i => {i}) exchanges i = Runs.run reach (fun i => {i}) exchanges j →
        ∀ id, id ∈ RevisionGraph.heads (Runs.run exchange start exchanges i).revisions
          ↔ id ∈ RevisionGraph.heads (Runs.run exchange start exchanges j).revisions := by
  have hbegin : ∀ i, Holds o start i (start i) {i} :=
    fun i => ⟨hstart i, Std.Refl.refl _, fun stored => by simp⟩
  have hrun := exchanges_hold hfree hbegin hfits
  refine ⟨verifyStructure_isOk.mpr (hrun i).copy.wellFormed, fun id policy ctx htrusted => ?_,
    (hrun i).holds, fun j hsame => mem_heads_congr fun stored => ?_⟩
  · obtain ⟨revisions, hrevisions⟩ := (hrun i).grown.revisions
    obtain ⟨proofs, hproofs⟩ := (hrun i).grown.proofs
    exact evaluate_append hrevisions.symm hproofs.symm htrusted
  · rw [(hrun i).holds, (hrun j).holds, hsame]

end Copies

attribute [local instance] Sample.importCrypto CharTable.ascii
open Sample

/-- Two holders with an edit each. -/
def twoCopies (second : Bool) : TrackedFile := if second then rightCopy else leftCopy

theorem twoCopies_converge :
    left ∈ (Runs.run exchange twoCopies [⟨true, false, importIds, importer⟩] true).revisions := by
  have hstart : ∀ second, IsCopy ⟨Sample.fileId, some Sample.policy, Sample.root.id,
      revisionMessages leftCopy ++ revisionMessages rightCopy⟩ (twoCopies second) := by
    rintro (_ | _)
    all_goals exact ⟨rfl, rfl, rfl, verifyStructure_isOk.mp ⟨genesis, by decide +kernel⟩,
      by decide +kernel, by decide +kernel⟩
  have hholds := (exchanges_converge (by decide +kernel) twoCopies hstart
    [⟨true, false, importIds, importer⟩] (by decide +kernel) true).2.2.1
  exact (hholds left).mpr ⟨false, by simp [Runs.run, reach], by decide +kernel⟩

end KeyQuorum.TrackedFile
