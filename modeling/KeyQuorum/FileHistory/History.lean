/-
  **WHAT THE HASHES OF A TRACKED FILE COMMIT TO.**

  No hash function is injective, so "collision-free" is asked only of the
  messages at hand: those the files in question hash (`CollisionFree`).
-/
import KeyQuorum.FileHistory.Verify

namespace KeyQuorum

open List Foundation

/-! ## §1. The messages a file hashes. -/

/-- What the chain of `fileId` hashes: the genesis message and every event's. -/
def chainMessages (fileId : Id16) (events : List HistoryEvent) : List Bytes :=
  (genesisDomain ++ fileId.bytes) :: events.filterMap (fun e => e.body.toOption.map (historyDomain ++ ·))

def storedMessages (fileId : Id16) (stored : StoredRevision) : List Bytes :=
  (stored.revision.body.toOption.map (revisionIdDomain ++ ·)).toList
    ++ (stored.payload.map (fun payload => [contentDomain, fileId.bytes, payload].flatten)).toList

def revisionMessages (f : TrackedFile) : List Bytes :=
  f.revisions.flatMap (storedMessages f.fileId)

theorem mem_chainMessages (he : e ∈ events) (hbody : e.body = .ok body) :
    historyDomain ++ body ∈ chainMessages fileId events :=
  mem_cons_of_mem _ (mem_filterMap.mpr ⟨e, he, by simp [hbody, Except.toOption]⟩)

theorem historyDomain_ne_genesisDomain (x y : Bytes) :
    historyDomain ++ x ≠ genesisDomain ++ y := by
  intro h
  have htake := congrArg (List.take 17) h
  rw [take_append_of_le_length (by decide +kernel),
    take_append_of_le_length (by decide +kernel)] at htake
  exact absurd htake (by decide +kernel)

section Commitments

variable [Crypto]

/-- No two of the messages have one digest. -/
def CollisionFree (messages : List Bytes) : Prop :=
  ∀ a ∈ messages, ∀ b ∈ messages, sha256 a = sha256 b → a = b

instance (messages : List Bytes) : Decidable (CollisionFree messages) := by
  unfold CollisionFree
  infer_instance

theorem CollisionFree.mono (h : CollisionFree more) (hsub : messages ⊆ more) : CollisionFree messages :=
  fun a ha b hb heq => h a (hsub ha) b (hsub hb) heq

/-! ## §2. Roots. -/

variable {e : HistoryEvent} {fileId : Id16} {events : List HistoryEvent}

theorem HistoryEvent.computeHash_ok {hash : Digest} (h : e.computeHash = .ok hash) :
    ∃ body, e.body = .ok body ∧ hash = sha256 (historyDomain ++ body) := by
  obtain ⟨body, hbody, h⟩ := try_ok h
  exact ⟨body, hbody, (Except.ok.inj h).symm⟩

theorem ChainOk.hash_of_mem (h : ChainOk fileId events) (he : e ∈ events) :
    ∃ body, e.body = .ok body ∧ historyDomain ++ body ∈ chainMessages fileId events
      ∧ e.eventHash = sha256 (historyDomain ++ body) := by
  obtain ⟨i, hi⟩ := mem_iff_getElem?.mp he
  obtain ⟨body, hbody, hhash⟩ := HistoryEvent.computeHash_ok (h.sealed i e hi).hash
  exact ⟨body, hbody, mem_chainMessages he hbody, hhash⟩

theorem ChainOk.hash_ne_genesis (h : ChainOk fileId events)
    (hsub : chainMessages fileId events ⊆ messages) (hfree : CollisionFree messages) (he : e ∈ events) :
    e.eventHash ≠ genesisHash fileId := by
  obtain ⟨body, -, hmem, hhash⟩ := h.hash_of_mem he
  intro heq
  exact historyDomain_ne_genesisDomain _ _
    (hfree _ (hsub hmem) _ (hsub (.head _)) (hhash.symm.trans heq))

section

variable (hx : ChainOk fileId xs) (hy : ChainOk fileId ys)
  (hfree : CollisionFree (chainMessages fileId xs ++ chainMessages fileId ys))

include hx hy hfree

theorem ChainOk.separates (hxm : x ∈ xs) (hym : y ∈ ys) (hhash : x.eventHash = y.eventHash) : x = y := by
  obtain ⟨bx, hbx, hmx, hhx⟩ := hx.hash_of_mem hxm
  obtain ⟨bty, hby, hmy, hhy⟩ := hy.hash_of_mem hym
  have hsame := hfree _ (mem_append_left _ hmx) _ (mem_append_right _ hmy)
    (hhx.symm.trans (hhash.trans hhy))
  rw [append_cancel_left hsame] at hbx
  exact HistoryEvent.eq_of_body_eq hbx hby hhash

theorem ChainOk.prefix_of_root
    (hroot : chainTip fileId ys = genesisHash fileId ∨ ∃ x ∈ xs, x.eventHash = chainTip fileId ys) :
    ys <+: xs :=
  HashChain.prefix_of_tip_mem hx.linked hy.linked (fun _ hxm _ hym => hx.separates hy hfree hxm hym)
    (fun _ hxm => hx.hash_ne_genesis (subset_append_left _ _) hfree hxm)
    (fun _ hym => hy.hash_ne_genesis (subset_append_right _ _) hfree hym) hroot

theorem ChainOk.eq_of_root (hroot : chainTip fileId xs = chainTip fileId ys) : xs = ys :=
  HashChain.eq_of_tip_eq hx.linked hy.linked (fun _ hxm _ hym => hx.separates hy hfree hxm hym)
    (fun _ hxm => hx.hash_ne_genesis (subset_append_left _ _) hfree hxm)
    (fun _ hym => hy.hash_ne_genesis (subset_append_right _ _) hfree hym) hroot

end

variable [CharTable]

/-- **A history root determines the history.**  Two event lists the chain check accepts with one
root are equal, and a verified file that passes through the root of another verified copy holds
that copy's events as a prefix. -/
theorem historyRoot_pins_events (fileId : Id16) :
    (∀ (xs ys : List HistoryEvent) (root : Digest),
      verifyChain fileId xs = .ok root → verifyChain fileId ys = .ok root →
      CollisionFree (chainMessages fileId xs ++ chainMessages fileId ys) → xs = ys)
    ∧ ∀ (a b : TrackedFile) (rootA rootB : Digest), a.fileId = fileId → b.fileId = fileId →
      verifyStructure a = .ok rootA → verifyStructure b = .ok rootB →
      CollisionFree (chainMessages fileId a.events ++ chainMessages fileId b.events) →
      a.passesThrough b.historyRoot = true → b.events <+: a.events := by
  refine ⟨?_, ?_⟩
  · intro xs ys root hx hy hfree
    obtain ⟨hxs, hrx⟩ := verifyChain_ok_iff.mp hx
    obtain ⟨hys, hry⟩ := verifyChain_ok_iff.mp hy
    exact hxs.eq_of_root hys hfree (hrx.symm.trans hry)
  · rintro a b rootA rootB rfl hb ha hb' hfree hpass
    have hca := (verifyStructure_ok_iff.mp ha).1.chain
    have hcb := (verifyStructure_ok_iff.mp hb').1.chain
    rw [hb] at hcb
    refine hca.prefix_of_root hcb hfree ?_
    have htip : b.historyRoot = chainTip a.fileId b.events := by
      rw [b.historyRoot_eq_chainTip, hb]
    rw [← htip]
    simpa [TrackedFile.passesThrough] using hpass

end Commitments

section

attribute [local instance] Sample.crypto CharTable.ascii
open Sample

theorem historyRoot_pins_events_sample :
    (file [root] [] [opened, renamed] []).passesThrough (file [root] [] [opened] []).historyRoot = true
      ∧ [opened] <+: [opened, renamed] := by
  have hpass : (file [root] [] [opened, renamed] []).passesThrough
      (file [root] [] [opened] []).historyRoot = true := by decide +kernel
  refine ⟨hpass, (historyRoot_pins_events Sample.fileId).2 _ _ renamed.eventHash
    opened.eventHash rfl rfl ?_ ?_ ?_ hpass⟩
  all_goals decide +kernel

end

section Commitments

variable [Crypto] [CharTable] {stored : StoredRevision} {f : TrackedFile}

/-! ## §3. Revision ids. -/

section

variable (h : RevisionOk f.fileId stored) (hmem : stored ∈ f.revisions)

include h hmem

theorem RevisionOk.id_of_mem :
    ∃ body, stored.revision.body = .ok body ∧ revisionIdDomain ++ body ∈ revisionMessages f
      ∧ stored.id = sha256 (revisionIdDomain ++ body) := by
  obtain ⟨body, hbody, hid⟩ := try_ok h.id
  refine ⟨body, hbody, mem_flatMap.mpr ⟨stored, hmem, ?_⟩, (Except.ok.inj hid).symm⟩
  simp [storedMessages, hbody, Except.toOption]

theorem RevisionOk.content_of_mem (hpay : stored.payload = some payload) :
    [contentDomain, f.fileId.bytes, payload].flatten ∈ revisionMessages f
      ∧ stored.revision.contentCommitment = sha256 [contentDomain, f.fileId.bytes, payload].flatten := by
  refine ⟨mem_flatMap.mpr ⟨stored, hmem, ?_⟩, h.commitment payload hpay⟩
  simp [storedMessages, hpay]

end

/-- **A revision id determines the stored revision**, content included, in any two verified copies
that still hold their content. -/
theorem stored_eq_of_id_eq {a b : TrackedFile} (hfile : a.fileId = b.fileId) (ha : WellFormed a)
    (hb : WellFormed b) (hlivea : a.isDestroyed = false) (hliveb : b.isDestroyed = false)
    (hfree : CollisionFree (revisionMessages a ++ revisionMessages b)) (hs : s ∈ a.revisions)
    (ht : t ∈ b.revisions) (hid : s.id = t.id) : s = t := by
  obtain ⟨bs, hbs, hms, hids⟩ := (ha.revisionOk s hs).id_of_mem hs
  obtain ⟨bt, hbt, hmt, hidt⟩ := (hb.revisionOk t ht).id_of_mem ht
  have hbody := hfree _ (mem_append_left _ hms) _ (mem_append_right _ hmt)
    (hids.symm.trans (hid.trans hidt))
  rw [append_cancel_left hbody] at hbs
  have hrevision : s.revision = t.revision := FileRevision.eq_of_body_eq hbs hbt hid
  -- The revision carries the commitment, and the commitment the content.
  obtain ⟨ps, hps⟩ := Option.isSome_iff_exists.mp (ha.kept hlivea s hs)
  obtain ⟨pt, hpt⟩ := Option.isSome_iff_exists.mp (hb.kept hliveb t ht)
  obtain ⟨hcs, hces⟩ := (ha.revisionOk s hs).content_of_mem hs hps
  obtain ⟨hct, hcet⟩ := (hb.revisionOk t ht).content_of_mem ht hpt
  have hcontent := hfree _ (mem_append_left _ hcs) _ (mem_append_right _ hct)
    (by rw [← hces, ← hcet, hrevision])
  simp only [flatten_cons, flatten_nil, hfile, append_cancel_left_eq, append_nil] at hcontent
  cases s
  cases t
  simp_all

end Commitments

end KeyQuorum
