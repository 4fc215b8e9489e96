/-
  **AN IMPORT IS A UNION** (`merge_history` in `file_history/sync.rs`).

  Two verified, live copies of one file whose hashes do not collide agree on
  every id both hold, so an import only ever adds revisions.  What the union
  has to satisfy on top is that one revision stays the only root.
-/
import KeyQuorum.FileHistory.Sync
import KeyQuorum.FileHistory.History
import Mathlib.Data.Nat.Digits.Defs

namespace KeyQuorum

open List Foundation
open RevisionGraph (heads mem_heads)

/-! ## §1. The import event fits its fields. -/

theorem length_hexEncode (bytes : Bytes) : (hexEncode bytes).length = 2 * bytes.length := by
  rw [hexEncode, String.length_ofList]
  induction bytes with
  | nil => rfl
  | cons b bytes ih =>
    rw [flatMap_cons, length_append, ih, length_cons]
    simp only [length_cons, length_nil]
    omega

theorem fitsField_digest (digest : Digest) : FitsField (hexEncode digest.bytes) := by
  apply fitsField_of_length
  rw [length_hexEncode, digest.length_bytes]
  decide

theorem fitsField_count (n : Nat) : FitsField (toString (n % 2 ^ 64)) := by
  have hlt : n % 2 ^ 64 < 10 ^ 20 := Nat.lt_trans (Nat.mod_lt n (by decide)) (by decide)
  have hlen : (Nat.repr (n % 2 ^ 64)).length ≤ 20 := Nat.repr_length _ 20 (by decide) hlt
  exact fitsField_of_length (Nat.lt_of_le_of_lt hlen (by decide))

theorem fitsField_debug (relation : HistoryRelation) : FitsField relation.debug := by
  cases relation <;> decide

namespace TrackedFile

theorem importEvent_fits (hlabel : FitsField context.actorLabel) (hat : FitsField context.occurredAt) :
    (importEvent context fromRoot result).Fits := by
  refine ⟨hat, ?_, by simp [importEvent, EventDetails.new, EventDetails.withDetail], ?_⟩
  · intro label h
    cases h
    exact hlabel
  · intro entry hentry
    simp only [importEvent, EventDetails.new, EventDetails.withDetail, nil_append,
      cons_append, mem_cons, not_mem_nil, or_false] at hentry
    rcases hentry with rfl | rfl | rfl | rfl
    · exact ⟨(by decide : FitsField "from_history_root"), fitsField_digest fromRoot⟩
    · exact ⟨(by decide : FitsField "relation"), fitsField_debug _⟩
    · exact ⟨(by decide : FitsField "revisions_added"), fitsField_count _⟩
    · exact ⟨(by decide : FitsField "proofs_added"), fitsField_count _⟩

/-! ## §2. Copies with a common root. -/

/-- The copies start at the same revision, or one of them holds none yet. -/
def RootsAgree (a b : TrackedFile) : Prop :=
  ∀ rootA ∈ a.revisions.head?, ∀ rootB ∈ b.revisions.head?, rootA.id = rootB.id

instance (a b : TrackedFile) : Decidable (RootsAgree a b) := by
  unfold RootsAgree
  infer_instance

section Uniting

variable [Crypto] [CharTable]

structure Copies (a b : TrackedFile) : Prop extends Importable a b where
  roots : RootsAgree a b
  collisionFree : CollisionFree (revisionMessages a ++ revisionMessages b)

variable {a b : TrackedFile} {stored : StoredRevision}

theorem Importable.symm (h : Importable a b) : Importable b a :=
  ⟨h.fileId.symm, h.policy.symm, h.otherLive, h.live, h.otherWellFormed, h.wellFormed⟩

theorem Copies.symm (h : Copies a b) : Copies b a where
  toImportable := h.toImportable.symm
  roots := fun rootB hb rootA ha => (h.roots rootA ha rootB hb).symm
  collisionFree := h.collisionFree.mono fun _ hm => mem_append.mpr (mem_append.mp hm).symm

theorem Importable.agree (h : Importable a b)
    (hfree : CollisionFree (revisionMessages a ++ revisionMessages b)) :
    ∀ stored ∈ b.revisions, ∀ existing, heldRevision a.revisions stored.id = some existing →
      existing = stored := by
  intro stored hstored existing hheld
  obtain ⟨hmem, hid⟩ := heldRevision_some hheld
  exact stored_eq_of_id_eq h.fileId h.wellFormed h.otherWellFormed h.live h.otherLive hfree hmem
    hstored hid

omit [Crypto] [CharTable] in
theorem mem_united_revisions (hagree : ∀ stored ∈ b.revisions, ∀ existing,
      heldRevision a.revisions stored.id = some existing → existing = stored) :
    stored ∈ a.revisions ++ a.newRevisions b ↔ stored ∈ a.revisions ∨ stored ∈ b.revisions := by
  rw [mem_append, newRevisions, mem_filter]
  refine ⟨Or.imp_right And.left, ?_⟩
  rintro (h | h)
  · exact .inl h
  · cases hheld : heldRevision a.revisions stored.id with
    | none => exact .inr ⟨h, rfl⟩
    | some existing =>
      exact .inl (hagree stored h existing hheld ▸ (heldRevision_some hheld).1)

omit [Crypto] [CharTable] in
theorem oneRoot_united (ha : OneRoot a.revisions) (hb : OneRoot b.revisions)
    (hroots : RootsAgree a b) : OneRoot (a.revisions ++ a.newRevisions b) := by
  unfold newRevisions
  unfold RootsAgree at hroots
  cases hrevs : a.revisions with
  | nil =>
    have hall : b.revisions.filter (fun stored => (heldRevision [] stored.id).isNone)
        = b.revisions := filter_eq_self.mpr fun _ _ => rfl
    rwa [nil_append, hall]
  | cons root rest =>
    rw [hrevs] at ha hroots
    refine ⟨ha.1, ?_⟩
    intro stored hstored
    rcases mem_append.mp hstored with h | h
    · exact ha.2 stored h
    · obtain ⟨hmem, hnew⟩ := mem_filter.mp h
      rw [heldRevision_isNone] at hnew
      -- A new revision is not the other copy's root, which is held here.
      cases hother : b.revisions with
      | nil => exact absurd (hother ▸ hmem) not_mem_nil
      | cons rootB restB =>
        rw [hother] at hmem hb hroots
        rcases mem_cons.mp hmem with rfl | hrest
        · exact absurd ⟨root, mem_cons_self, hroots root rfl stored rfl⟩ hnew
        · exact hb.2 stored hrest

/-- **The union of two copies is well formed.** -/
theorem Copies.united (h : Copies a b) : WellFormed (a.united b) := by
  have ha := h.wellFormed
  have hb := h.otherWellFormed
  have hmem : ∀ {stored}, stored ∈ (a.united b).revisions ↔
      stored ∈ a.revisions ∨ stored ∈ b.revisions :=
    mem_united_revisions (h.toImportable.agree h.collisionFree)
  refine { ha with
    revisionOk := ?_, parentsFirst := ?_, oneRoot := oneRoot_united ha.oneRoot hb.oneRoot h.roots
    proofOk := ?_, slots := Slots.ok_append_admitted ha.slots b.proofs
    gone := ?_, kept := ?_, eventRevision := ?_ }
  · intro stored hs
    rcases hmem.mp hs with hs | hs
    · exact ha.revisionOk stored hs
    · exact (show (a.united b).fileId = b.fileId from h.fileId) ▸ hb.revisionOk stored hs
  · exact ha.parentsFirst.union hb.parentsFirst _ fun stored => heldRevision_isNone
  · intro p hp
    rcases mem_append.mp hp with hp | hp
    · obtain ⟨stored, hs, hrest⟩ := ha.proofOk p hp
      exact ⟨stored, hmem.mpr (.inl hs), hrest⟩
    · obtain ⟨stored, hs, hrest⟩ := hb.proofOk p ((Slots.admitted_sublist _ _).subset hp)
      exact ⟨stored, hmem.mpr (.inr hs), hrest⟩
  · exact fun hgone => absurd (h.live.symm.trans hgone) Bool.false_ne_true
  · intro _ stored hs
    rcases hmem.mp hs with hs | hs
    · exact ha.kept h.live stored hs
    · exact hb.kept h.otherLive stored hs
  · intro e he id hid
    obtain ⟨stored, hs, hsid⟩ := ha.eventRevision e he id hid
    exact ⟨stored, hmem.mpr (.inl hs), hsid⟩

/-! ## §3. After the import. -/

variable {a' : TrackedFile} {result : HistoryMerge}

section

variable (h : Imported a b result a')

include h

theorem Imported.mem_revisions :
    stored ∈ a'.revisions ↔ stored ∈ a.revisions ∨ stored ∈ b.revisions := by
  rw [h.revisions]
  exact mem_united_revisions h.agree

theorem Imported.live : a'.isDestroyed = false := by
  rcases h.event with ⟨-, -, rfl⟩ | ⟨_, event, -, happ⟩
  · exact h.importable.live
  · have hsafe : destroysThisContent event = false := by
      rw [destroysThisContent, happ.eventType]
      rfl
    rw [happ.result, isDestroyed_concat, hsafe, Bool.or_false]
    exact h.importable.live

theorem Imported.importable_again : Importable a' b where
  fileId := h.extend.fileId.trans h.importable.fileId
  policy := h.extend.policy.trans h.importable.policy
  live := h.live
  otherLive := h.importable.otherLive
  wellFormed := h.wellFormed
  otherWellFormed := h.importable.otherWellFormed

/-- **Importing the same copy again adds nothing and records nothing**, whoever does it. -/
theorem Imported.again (rng : Nat → Id16) (context : ImportContext) :
    ∃ repeated, mergeHistory rng b context a' = (.ok repeated, a')
      ∧ repeated.revisionsAdded = 0 ∧ repeated.proofsAdded = 0 := by
  have hrevisions : a'.newRevisions b = [] := by
    refine filter_eq_nil_iff.mpr fun stored hstored hnew => ?_
    rw [heldRevision_isNone] at hnew
    exact hnew ⟨stored, h.mem_revisions.mpr (.inr hstored), rfl⟩
  have hproofs : incomingProofs a'.proofs b.proofs = [] := by
    rw [h.proofs]
    exact Slots.admitted_again a.proofs b.proofs
  have hagree : ∀ stored ∈ b.revisions, ∀ existing,
      heldRevision a'.revisions stored.id = some existing → existing = stored := by
    intro stored hstored existing hheld
    obtain ⟨hmem, hid⟩ := heldRevision_some hheld
    exact h.wellFormed.parentsFirst.key_inj hmem (h.mem_revisions.mpr (.inr hstored)) hid
  have hzero : (a'.importResult b).revisionsAdded = 0 ∧ (a'.importResult b).proofsAdded = 0 := by
    rw [importResult, hrevisions, hproofs]
    exact ⟨rfl, rfl⟩
  obtain ⟨f', hmerge⟩ := mergeHistory_total rng context h.importable_again hagree
    ((united_of_nothing_new hrevisions hproofs).symm ▸ h.wellFormed) fun hsome => absurd hzero hsome
  refine ⟨_, ?_, hzero⟩
  rcases (mergeHistory_ok hmerge).event with ⟨-, -, rfl⟩ | ⟨_, _, hsome, -⟩
  · exact hmerge
  · exact absurd hzero hsome

end

section

omit [Crypto] [CharTable]

theorem mem_heads_congr (h : ∀ stored, stored ∈ l ↔ stored ∈ m) (id : Digest) :
    id ∈ heads l ↔ id ∈ heads m := by
  simp only [mem_heads, Dag.IsHead, Dag.mem_keys, h]

theorem lacking_of_diverged (h : historyRelation mine theirs = .diverged) :
    (∃ s ∈ mine, s.id ∉ Dag.keys StoredRevision.id theirs)
      ∧ ∃ t ∈ theirs, t.id ∉ Dag.keys StoredRevision.id mine := by
  unfold historyRelation at h
  dsimp only at h
  split at h
  next => cases h
  next => cases h
  next => cases h
  next _ _ hmine htheirs _ =>
    obtain ⟨s, hs⟩ := exists_mem_of_length_pos (Nat.pos_of_ne_zero hmine)
    obtain ⟨t, ht⟩ := exists_mem_of_length_pos (Nat.pos_of_ne_zero htheirs)
    obtain ⟨hsmem, hsnew⟩ := mem_filter.mp hs
    obtain ⟨htmem, htnew⟩ := mem_filter.mp ht
    exact ⟨⟨s, hsmem, by simpa [Dag.mem_keys] using hsnew⟩, t, htmem, heldRevision_isNone.mp htnew⟩

theorem one_lt_length_of_mem_ne {l : List Digest} {x y : Digest} (hx : x ∈ l) (hy : y ∈ l)
    (hne : x ≠ y) : 1 < l.length := by
  match l with
  | [] => cases hx
  | [z] => exact absurd ((mem_singleton.mp hx).trans (mem_singleton.mp hy).symm) hne
  | _ :: _ :: _ => simp

end

theorem Imported.closed (h : Imported a b result a') (hc : WellFormed c)
    (hsub : ∀ stored ∈ c.revisions, stored ∈ a'.revisions)
    (hlink : Dag.Link StoredRevision.id StoredRevision.parents a'.revisions d p)
    (hd : d ∈ Dag.keys StoredRevision.id c.revisions) : p ∈ Dag.keys StoredRevision.id c.revisions := by
  obtain ⟨s, hs, hsid, hp⟩ := hlink
  obtain ⟨t, ht, htid⟩ := hd
  obtain rfl := h.wellFormed.parentsFirst.key_inj hs (hsub t ht) (hsid.trans htid.symm)
  simpa using hc.parentsFirst.link_mem ⟨s, ht, hsid, hp⟩

/-- **Diverged copies leave more than one head.**  Above the revision one copy lacks there is a
head outside that copy, and the same the other way round. -/
theorem Imported.forked (h : Imported a b result a') (hdiv : result.relation = .diverged) :
    1 < (heads a'.revisions).length := by
  rw [h.reported] at hdiv
  obtain ⟨⟨s, hs, hsout⟩, t, ht, htout⟩ := lacking_of_diverged hdiv
  have ha : ∀ stored ∈ a.revisions, stored ∈ a'.revisions := fun _ hm => h.mem_revisions.mpr (.inl hm)
  have hb : ∀ stored ∈ b.revisions, stored ∈ a'.revisions := fun _ hm => h.mem_revisions.mpr (.inr hm)
  have hpf := h.wellFormed.parentsFirst
  obtain ⟨x, hx, hxout⟩ := hpf.head_outside
    (fun _ _ hl hd => h.closed h.importable.otherWellFormed hb hl hd)
    (Dag.mem_keys_of_mem (ha s hs)) hsout
  obtain ⟨y, hy, hyout⟩ := hpf.head_outside (fun _ _ hl hd => h.closed h.importable.wellFormed ha hl hd)
    (Dag.mem_keys_of_mem (hb t ht)) htout
  refine one_lt_length_of_mem_ne (mem_heads.mpr hx) (mem_heads.mpr hy) ?_
  rintro rfl
  obtain ⟨stored, hstored, rfl⟩ := hx.1
  rcases h.mem_revisions.mp hstored with hm | hm
  · exact hyout (Dag.mem_keys_of_mem hm)
  · exact hxout (Dag.mem_keys_of_mem hm)

/-! ## §4. Both ways. -/

theorem Copies.merge (h : Copies a b) (rng : Nat → Id16) (hlabel : FitsField context.actorLabel)
    (hat : FitsField context.occurredAt) :
    ∃ result a', mergeHistory rng b context a = (.ok result, a') ∧ Imported a b result a' := by
  obtain ⟨a', hmerge⟩ := mergeHistory_total rng context h.toImportable
    (h.toImportable.agree h.collisionFree) h.united
    fun _ => importEvent_fits hlabel hat
  exact ⟨_, a', hmerge, mergeHistory_ok hmerge⟩

theorem Imported.messages (h : Imported a b result a') :
    revisionMessages a' ⊆ revisionMessages a ++ revisionMessages b := by
  intro message hmessage
  obtain ⟨stored, hstored, hmessage⟩ := mem_flatMap.mp hmessage
  rw [h.extend.fileId] at hmessage
  rcases h.mem_revisions.mp hstored with hm | hm
  · exact mem_append_left _ (mem_flatMap.mpr ⟨stored, hm, hmessage⟩)
  · rw [h.importable.fileId] at hmessage
    exact mem_append_right _ (mem_flatMap.mpr ⟨stored, hm, hmessage⟩)

theorem Imported.roots (h : Imported a b result a') (hroots : RootsAgree a b) : RootsAgree b a' := by
  intro rootB hb rootA' ha'
  rw [h.revisions, newRevisions] at ha'
  cases hrevs : a.revisions with
  | nil =>
    have hall : b.revisions.filter (fun stored => (heldRevision [] stored.id).isNone)
        = b.revisions := filter_eq_self.mpr fun _ _ => rfl
    rw [hrevs, nil_append, hall] at ha'
    rw [Option.mem_unique hb ha']
  | cons root rest =>
    rw [hrevs] at ha'
    obtain rfl := Option.some.inj ha'
    exact (hroots root (by rw [hrevs]; rfl) rootB hb).symm

theorem Copies.imported (h : Copies a b) (himp : Imported a b result a') : Copies b a' where
  toImportable := himp.importable_again.symm
  roots := himp.roots h.roots
  collisionFree := h.collisionFree.mono (append_subset.mpr ⟨subset_append_right _ _, himp.messages⟩)

theorem Imported.rootsAgree (h : Imported a b result a') : RootsAgree a b := by
  intro rootA ha rootB hb
  obtain ⟨restA, hrevsA⟩ : ∃ rest, a.revisions = rootA :: rest := head?_eq_some_iff.mp ha
  obtain ⟨restB, hrevsB⟩ : ∃ rest, b.revisions = rootB :: rest := head?_eq_some_iff.mp hb
  have honeB := h.importable.otherWellFormed.oneRoot
  rw [hrevsB] at honeB
  have hbase : rootB.parents = [] := honeB.1
  have hmem : rootB ∈ a'.revisions := h.mem_revisions.mpr (.inr (hrevsB ▸ mem_cons_self))
  have hone := h.wellFormed.oneRoot
  rw [h.revisions, hrevsA, cons_append] at hone hmem
  rcases mem_cons.mp hmem with rfl | hrest
  · rfl
  · exact absurd hbase (hone.2 rootB hrest)

/-- **An import is a union.**  Of two verified, live copies of one file under one policy, whose
hashes do not collide and which start at the same revision (or one of which is still empty), each
can import the other: the revisions are united, nothing held is rewritten, the result verifies, a
second import is a no-op, both copies end with the same revisions and the same heads, and copies
that had diverged leave a fork.  Copies with different roots are refused and left as they were. -/
theorem mergeHistory_unites (rng : Nat → Id16) {context : ImportContext} {rootA rootB : Digest}
    (hfile : a.fileId = b.fileId) (hpolicy : a.policy = b.policy)
    (hlive : a.isDestroyed = false) (hliveB : b.isDestroyed = false)
    (hverify : verifyStructure a = .ok rootA) (hverifyB : verifyStructure b = .ok rootB)
    (hfree : CollisionFree (revisionMessages a ++ revisionMessages b))
    (hlabel : FitsField context.actorLabel) (hat : FitsField context.occurredAt) :
    (RootsAgree a b → ∃ result a', mergeHistory rng b context a = (.ok result, a')
      ∧ (∀ stored, stored ∈ a'.revisions ↔ stored ∈ a.revisions ∨ stored ∈ b.revisions)
      ∧ Extends a a'
      ∧ (∃ root, verifyStructure a' = .ok root)
      ∧ (∀ rng' context', ∃ repeated, mergeHistory rng' b context' a' = (.ok repeated, a')
          ∧ repeated.revisionsAdded = 0 ∧ repeated.proofsAdded = 0)
      ∧ (∀ rng' context' source, source = a ∨ source = a' →
          FitsField context'.actorLabel → FitsField context'.occurredAt →
          ∃ result' b', mergeHistory rng' source context' b = (.ok result', b')
            ∧ (∀ stored, stored ∈ a'.revisions ↔ stored ∈ b'.revisions)
            ∧ ∀ id, id ∈ heads a'.revisions ↔ id ∈ heads b'.revisions)
      ∧ (result.relation = .diverged → 1 < (heads a'.revisions).length))
    ∧ (¬ RootsAgree a b → ∃ e, mergeHistory rng b context a = (.error e, a)) := by
  have himportable : Importable a b := ⟨hfile, hpolicy, hlive, hliveB,
    (verifyStructure_ok_iff.mp hverify).1, (verifyStructure_ok_iff.mp hverifyB).1⟩
  constructor
  · intro hroots
    have hcopies : Copies a b := ⟨himportable, hroots, hfree⟩
    obtain ⟨result, a', hmerge, himp⟩ := hcopies.merge rng hlabel hat
    refine ⟨result, a', hmerge, fun _ => himp.mem_revisions, himp.extend,
      verifyStructure_isOk.mpr himp.wellFormed, himp.again, ?_, himp.forked⟩
    intro rng' context' source hsource hlabel' hat'
    -- whether or not it was brought up to date first, the source can be imported back
    have hback : Copies b source := by
      rcases hsource with rfl | rfl
      · exact hcopies.symm
      · exact hcopies.imported himp
    obtain ⟨result', b', hmerge', himp'⟩ := hback.merge rng' hlabel' hat'
    have hsame : ∀ stored, stored ∈ a'.revisions ↔ stored ∈ b'.revisions := by
      intro stored
      rw [himp'.mem_revisions]
      rcases hsource with rfl | rfl
      · rw [himp.mem_revisions, or_comm]
      · rw [himp.mem_revisions]
        tauto
    exact ⟨result', b', hmerge', hsame, mem_heads_congr hsame⟩
  · intro hroots
    cases hrun : mergeHistory rng b context a with
    | mk outcome a' =>
      cases outcome with
      | ok result => exact absurd (mergeHistory_ok hrun).rootsAgree hroots
      | error e =>
        have hsame := mergeHistory_atomic a e (by rw [hrun])
        rw [hrun] at hsame
        exact ⟨e, by rw [← hsame]⟩

end Uniting

end TrackedFile

/-! ## §5. Two copies. -/

namespace Sample

def importer : ImportContext where
  actorIdentity := some owner
  actorLabel := "M.S"
  occurredAt := "2026-10-04T08:00:00Z"
  topologyGeneration := 1

def importIds : Nat → Id16 := fun n => .ofNat 16 (0xf0 + n)

/-- The first event of a copy that imported another one without events. -/
def importedFirst (result : HistoryMerge) (hash : Nat) : HistoryEvent :=
  { event 0xf0 0 none genesis hash importer.occurredAt .historyImported with
    details := (TrackedFile.importEvent importer genesis result).details }

def importHashes : List (Bytes × Digest) :=
  [importedFirst ⟨.diverged, 1, 0⟩ 0xd6f7dc3cf5815496c1a7491df135c9b1421a4311841602069f1105d1b1973dd9,
    importedFirst ⟨.remoteAhead, 1, 0⟩
      0x5c71bda176675725afe6ac8faa8380923b4e2cf86003ae1b08f6427c959360b1,
    importedFirst ⟨.identical, 0, 1⟩
      0xb6206cbb205f21840618a4deed5cee57f6ed8fa542d78a2610792fcbb2a75d74].map
    (fun e => (historyDomain ++ bytesOf e.body, e.eventHash))

@[reducible] def importCrypto : Crypto := .known (hashes ++ importHashes) []

def leftCopy : TrackedFile := file [root, left] [] [] []

def rightCopy : TrackedFile := file [root, right] [] [] []

end Sample

namespace TrackedFile

attribute [local instance] Sample.importCrypto CharTable.ascii
open Sample

theorem mergeHistory_unites_sample :
    ∃ result a', mergeHistory importIds rightCopy importer leftCopy = (.ok result, a')
      ∧ (∀ stored, stored ∈ a'.revisions ↔ stored ∈ leftCopy.revisions ∨ stored ∈ rightCopy.revisions)
      ∧ 1 < (heads a'.revisions).length := by
  have hverify : verifyStructure leftCopy = .ok genesis := by decide +kernel
  have hverifyB : verifyStructure rightCopy = .ok genesis := by decide +kernel
  have hfree : CollisionFree (revisionMessages leftCopy
      ++ revisionMessages rightCopy) := by decide +kernel
  have hlabel : FitsField importer.actorLabel := by decide +kernel
  have hat : FitsField importer.occurredAt := by decide +kernel
  obtain ⟨result, a', hmerge, hrevisions, -, -, -, -, hfork⟩ :=
    (mergeHistory_unites (a := leftCopy) (b := rightCopy) importIds rfl rfl
      rfl rfl hverify hverifyB hfree hlabel hat).1 (by decide +kernel)
  refine ⟨result, a', hmerge, hrevisions, hfork ?_⟩
  have hresult : (mergeHistory importIds rightCopy importer
      leftCopy).1 = .ok ⟨.diverged, 1, 0⟩ := by decide +kernel
  rw [hmerge] at hresult
  rw [Except.ok.inj hresult]

/-- Two verified, live copies of one file under one policy with different first revisions are not
united. -/
theorem mergeHistory_refuses_rival_root :
    verifyStructure (file [root] [] [] []) = .ok genesis
      ∧ verifyStructure (file [rival] [] [] []) = .ok genesis
      ∧ CollisionFree (revisionMessages (file [root] [] [] [])
        ++ revisionMessages (file [rival] [] [] []))
      ∧ FitsField importer.actorLabel ∧ FitsField importer.occurredAt
      ∧ mergeHistory importIds (file [rival] [] [] []) importer (file [root] [] [] [])
        = (.error .invalidTrackedFile, file [root] [] [] []) := by
  refine ⟨?_, ?_, ?_, ?_, ?_, ?_⟩
  all_goals decide +kernel

end TrackedFile

end KeyQuorum
