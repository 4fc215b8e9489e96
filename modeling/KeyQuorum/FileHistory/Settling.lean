/-
  **WHAT A MERGE AND A DECISION LEAVE BEHIND** (`auto_merge` and
  `resolve_conflict`).

  Both check in one revision over heads of the file and record it.  On a
  verified file the new revision takes the place of the heads it joins, no
  proof or earlier revision changes, and nobody has signed it yet.
-/
import KeyQuorum.FileHistory.Fork

namespace KeyQuorum

open List Foundation
open RevisionGraph (heads)

/-! ## §1. The heads after a check-in. -/

theorem RevisionGraph.heads_concat
    (hpf : Dag.ParentsFirst StoredRevision.id StoredRevision.parents ∅ revisions)
    (hnew : stored.id ∉ Dag.keys StoredRevision.id revisions)
    (hknown : ∀ p ∈ stored.parents, p ∈ Dag.keys StoredRevision.id revisions) :
    heads (revisions ++ [stored])
      = (heads revisions).filter (fun id => !stored.parents.contains id) ++ [stored.id] := by
  have hold : stored.id ∉ revisions.flatMap StoredRevision.parents := by
    intro hmem
    obtain ⟨child, hchild, hparent⟩ := mem_flatMap.mp hmem
    have hkey := hpf.link_mem ⟨child, hchild, rfl, hparent⟩
    rw [Set.empty_union] at hkey
    exact hnew hkey
  have hown : stored.id ∉ stored.parents := fun h => hnew (hknown _ h)
  unfold heads
  rw [map_append, filter_append, flatMap_append, filter_filter]
  congr 1
  · refine filter_congr fun id _ => ?_
    simp [contains_eq_mem, Bool.and_comm]
  · rw [map_singleton, flatMap_singleton, filter_cons_of_pos (by simp [-mem_flatMap, hold, hown]),
      filter_nil]

namespace TrackedFile

variable [Crypto] {f f' g : TrackedFile} {id : Digest}

/-- **Without a proof that names it no revision is `Trusted`.** -/
theorem not_trusted_of_unsigned (h : ∀ p ∈ f.proofs, p.revisionId ≠ id) (policy : FilePolicy)
    (ctx : TrustContext) : f.evaluateRevisionTrust id policy ctx ≠ .ok .trusted := by
  intro htrusted
  obtain ⟨stored, requirement, content, hget, -, hfirst, -⟩ := evaluate_trusted_iff.mp htrusted
  exact h content hfirst.mem (hfirst.holds.revisionId.trans (RevisionGraph.get_some hget).2)

variable [CharTable] {rng : Nat → Id16} {left right : Digest} {allowed : Bool} {new : NewRevision}
  {payload : Bytes} {r : FileRevision}

theorem CheckedIn.parents (h : CheckedIn f new payload id f' r) :
    r.parentRevisionIds = new.parentRevisionIds := by
  obtain ⟨-, -, -, hparents, -⟩ := FileRevision.create_ok h.created
  exact hparents

theorem CheckedIn.heads (hf : WellFormed f) (h : CheckedIn f new payload id f' r) :
    heads f'.revisions
      = (heads f.revisions).filter (fun k => !new.parentRevisionIds.contains k) ++ [id] := by
  have hparents : StoredRevision.parents ⟨r, some payload⟩ = new.parentRevisionIds := h.parents
  have hid : StoredRevision.id ⟨r, some payload⟩ = id := h.id_eq.symm
  rw [h.result, ← hid, ← hparents]
  exact RevisionGraph.heads_concat hf.parentsFirst (hid ▸ h.id_new) (hparents ▸ h.parents_known)

theorem CheckedIn.unsigned (hf : WellFormed f) (h : CheckedIn f new payload id f' r) :
    ∀ p ∈ f.proofs, p.revisionId ≠ id := by
  intro p hp hid
  obtain ⟨stored, hmem, hstored, -⟩ := hf.proofOk p hp
  exact h.id_new ⟨stored, hmem, hstored.trans hid⟩

/-! ## §2. An automatic merge. -/

variable {plan : AutoMerge} {revision : Option Digest} {conflict : OpenConflict} {label : String}

omit [Crypto] [CharTable] in
theorem planRelated_content
    (h : f.planRelated left right allowed leftBytes rightBytes relation = .ok plan)
    (hjoins : AutoMerge.Joins plan) : plan.content.isSome := by
  unfold planRelated planTextMerge at h
  dsimp only at h
  repeat' split at h
  all_goals first
    | cases h; rfl
    | cases h; rcases hjoins with h | h <;> cases h
    | cases h

/-- A plan that joins says what it joins to. -/
theorem planAutoMerge_content (h : f.planAutoMerge left right allowed = .ok plan)
    (hjoins : AutoMerge.Joins plan) : plan.content.isSome := by
  unfold planAutoMerge at h
  split at h
  next =>
    split at h
    next =>
      cases h
      rcases hjoins with h | h <;> cases h
    next =>
      obtain ⟨relation, -, h⟩ := try_ok h
      exact planRelated_content h hjoins
  next => cases h

theorem autoMergeSteps_ok (h : autoMergeSteps rng left right allowed new f = (.ok result, f')) :
    ∃ plan mid, f.planAutoMerge left right allowed = .ok plan ∧ result.outcome = plan.outcome
      ∧ checkInMerge left right new plan f = (.ok result.mergeRevision, mid)
      ∧ f'.revisions = mid.revisions ∧ f'.proofs = mid.proofs := by
  obtain ⟨plan, hplan, h⟩ := Op.lift_bind_ok (Op.read_bind_ok h)
  obtain ⟨revision, mid, hcheck, h⟩ := Op.bind_ok h
  obtain ⟨_, first, hfirst, h⟩ := Op.bind_ok h
  obtain ⟨_, second, hsecond, h⟩ := Op.bind_ok h
  cases h
  have hmid := (append_ok hfirst).result
  have hend := (append_ok hsecond).result
  exact ⟨plan, mid, hplan, rfl, hcheck, by rw [hend, hmid], by rw [hend, hmid]⟩

theorem checkInMerge_joins (hjoins : AutoMerge.Joins plan) (hcontent : plan.content = some content)
    (h : checkInMerge left right new plan f = (.ok revision, f')) :
    ∃ id, revision = some id ∧ checkIn (mergeRevisionOf new left right) content f = (.ok id, f') := by
  unfold checkInMerge at h
  rw [hcontent] at h
  rcases hjoins with hkind | hkind
  all_goals
    rw [hkind] at h
    obtain ⟨id, mid, hcheckIn, h⟩ := Op.bind_ok h
    cases h
    exact ⟨id, rfl, hcheckIn⟩

theorem checkInMerge_stays (hstays : ¬ AutoMerge.Joins plan)
    (h : checkInMerge left right new plan f = (.ok revision, f')) : f' = f := by
  unfold checkInMerge at h
  unfold AutoMerge.Joins at hstays
  cases hkind : plan.outcome
  all_goals
    rw [hkind] at h hstays
    first
      | cases h; rfl
      | exact absurd (by simp) hstays

/-- What an automatic merge leaves alone, and what it puts in place of two heads. -/
theorem autoMerge_changes (hverify : ∃ root, verifyStructure f = .ok root)
    {outcome : Except Error AutoMerge} (h : autoMerge rng left right allowed new f = (outcome, f')) :
    (∀ result, outcome = .ok result → AutoMerge.Joins result →
        ∃ id stored, result.mergeRevision = some id ∧ stored.id = id ∧ heads f'.revisions
            = (heads f.revisions).filter (fun k => !([left, right].contains k)) ++ [id]
          ∧ f'.revisions = f.revisions ++ [stored] ∧ f'.proofs = f.proofs
          ∧ (∀ policy ctx, f'.evaluateRevisionTrust id policy ctx ≠ .ok .trusted)
          ∧ ∀ (g : TrackedFile) policy ctx, (∀ p ∈ g.proofs, p.revisionId ≠ id) →
              g.evaluateRevisionTrust id policy ctx ≠ .ok .trusted)
      ∧ ((∀ result, outcome = .ok result → ¬ AutoMerge.Joins result) → f'.revisions = f.revisions
            ∧ heads f'.revisions = heads f.revisions
            ∧ f'.proofs = f.proofs) := by
  have hf := verifyStructure_isOk.mp hverify
  cases outcome with
  | error e =>
    obtain rfl : f' = f := by
      have hsame := autoMerge_atomic f e (by rw [h])
      rwa [h] at hsame
    exact ⟨nofun, fun _ => ⟨rfl, rfl, rfl⟩⟩
  | ok result =>
    obtain ⟨plan, mid, hplan, houtcome, hcheck, hrevisions, hproofs⟩ :=
      autoMergeSteps_ok (Op.rollback_ok h)
    have hplanned : AutoMerge.Joins result ↔ AutoMerge.Joins plan := by
      unfold AutoMerge.Joins
      rw [houtcome]
    refine ⟨?_, fun hstays => ?_⟩
    · intro result' hresult hjoins
      obtain rfl : result = result' := Except.ok.inj hresult
      obtain ⟨content, hcontent⟩ := Option.isSome_iff_exists.mp
        (planAutoMerge_content hplan (hplanned.mp hjoins))
      obtain ⟨id, hid, hcheckIn⟩ := checkInMerge_joins (hplanned.mp hjoins) hcontent hcheck
      obtain ⟨r, hchecked⟩ := checkIn_ok hcheckIn
      have hunsigned : ∀ p ∈ f'.proofs, p.revisionId ≠ id := by
        intro p hp
        rw [hproofs, hchecked.result] at hp
        exact hchecked.unsigned hf p hp
      refine ⟨id, ⟨r, some content⟩, hid, hchecked.id_eq.symm, ?_, ?_, ?_,
        not_trusted_of_unsigned hunsigned, fun g policy ctx hg => not_trusted_of_unsigned hg policy ctx⟩
      · rw [hrevisions]
        exact hchecked.heads hf
      · rw [hrevisions, hchecked.result]
      · rw [hproofs, hchecked.result]
    · have hmid := checkInMerge_stays (mt hplanned.mpr (hstays result rfl)) hcheck
      rw [hrevisions, hproofs, hmid]
      exact ⟨rfl, rfl, rfl⟩

/-! ## §3. A decision. -/

/-- What waits for a person is over all the heads. -/
theorem openConflict_heads (h : f.openConflict allowed = .ok (some conflict)) :
    heads f.revisions = conflict.parents := by
  unfold openConflict at h
  split at h
  next hheads =>
    obtain ⟨relation, -, h⟩ := try_ok h
    split at h
    next => cases h
    next =>
      obtain ⟨plan, -, h⟩ := try_ok h
      split at h <;> cases h
      exact hheads
  next hheads =>
    split at h
    next =>
      split at h
      next => cases h
      next =>
        split at h <;> cases h
        exact hheads
    next => cases h
  next => cases h

theorem requireConflict_ok (h : f.requireConflict allowed = .ok conflict) :
    f.openConflict allowed = .ok (some conflict) := by
  obtain ⟨found, hfound, h⟩ := try_ok h
  cases found with
  | none => cases h
  | some found => rw [hfound, Except.ok.inj h]

/-- Nothing waits at a lone head that no event names. -/
theorem openConflict_none (hheads : heads f.revisions = [id])
    (hfree : ∀ e ∈ f.events, e.eventType = .mergeRejected → e.revisionId ≠ some id) (allowed : Bool) :
    f.openConflict allowed = .ok none := by
  have hrejected : f.isRejected id = false := by
    unfold isRejected
    rw [any_eq_false]
    intro event hevent
    simpa using hfree event hevent
  unfold openConflict
  rw [hheads]
  exact if_neg (by simp [hrejected])

/-- What a resolution makes the content of the new revision: that of a head, or one of the reviewer's. -/
def Resolution.Keeps (f : TrackedFile) (conflict : OpenConflict) (content : Bytes) : Resolution → Prop
  | .keepLeft => ∃ head ∈ f.revisions, head.id = conflict.left ∧ head.payload = some content
  | .keepRight => ∃ head ∈ f.revisions, head.id = conflict.right ∧ head.payload = some content
  | .edited bytes => content = bytes

omit [Crypto] [CharTable] in
theorem resolvedContent_keeps {resolution : Resolution} {content : Bytes}
    (h : f.resolvedContent conflict resolution = .ok content) :
    Resolution.Keeps f conflict content resolution := by
  have hheld (id : Digest) (h : (f.contentOf id).elim (Except.error Error.fileExpired) .ok = .ok content) :
      ∃ head ∈ f.revisions, head.id = id ∧ head.payload = some content := by
    cases hcontent : f.contentOf id with
    | none =>
      rw [hcontent] at h
      cases h
    | some bytes =>
      rw [hcontent] at h
      obtain ⟨head, hget, hpayload⟩ := Option.bind_eq_some_iff.mp hcontent
      exact ⟨head, (RevisionGraph.get_some hget).1, (RevisionGraph.get_some hget).2,
        Except.ok.inj h ▸ hpayload⟩
  cases resolution with
  | keepLeft => exact hheld _ h
  | keepRight => exact hheld _ h
  | edited bytes => exact (Except.ok.inj h).symm

/-- **A decision settles the conflict**: it is by someone who may decide and wrote neither side, what they
chose is the one head, nothing waits any more, and what was there before stays. -/
theorem resolveConflict_settles (hverify : ∃ root, verifyStructure f = .ok root)
    {resolution : Resolution} {policy : FilePolicy} {ctx : TrustContext}
    (h : resolveConflict rng resolution new policy ctx f = (.ok id, f')) :
    ∃ conflict content stored event, f.openConflict policy.autoMerge = .ok (some conflict)
      ∧ f.authorOf conflict.left ≠ .ok new.authorHcpLabel
      ∧ f.authorOf conflict.right ≠ .ok new.authorHcpLabel
      ∧ f.mayDecide conflict.left conflict.right new.authorHcpLabel policy ctx = .ok true
      ∧ heads f'.revisions = [id] ∧ stored.id = id
      ∧ stored.revision.authorHcpLabel = new.authorHcpLabel
      ∧ Resolution.Keeps f conflict content resolution ∧ stored.payload = some content
      ∧ (∀ allowed, f'.openConflict allowed = .ok none)
      ∧ f'.revisions = f.revisions ++ [stored] ∧ f'.proofs = f.proofs
      ∧ f'.events = f.events ++ [event] ∧ f'.eventProofs = f.eventProofs := by
  have hf := verifyStructure_isOk.mp hverify
  obtain ⟨conflict, hconflict, h⟩ := Op.lift_bind_ok (Op.read_bind_ok (Op.rollback_ok h))
  obtain ⟨decides, hdecides, h⟩ := Op.lift_bind_ok h
  obtain ⟨hmay, h⟩ := Op.require_bind_ok h
  rw [hmay] at hdecides
  obtain ⟨content, hcontent, h⟩ := Op.lift_bind_ok h
  obtain ⟨id', mid, hcheck, h⟩ := Op.bind_ok h
  obtain ⟨event, last, happend, h⟩ := Op.bind_ok h
  cases h
  obtain ⟨r, hchecked⟩ := checkIn_ok hcheck
  have happended := append_ok happend
  have hopen := requireConflict_ok hconflict
  obtain ⟨hleft, hright, -⟩ := mayDecide_iff.mp hdecides
  have hheads : heads f'.revisions = [id] := by
    rw [happended.result, hchecked.heads hf, openConflict_heads hopen]
    simp
  have hevents : f'.events = f.events ++ [event] := by rw [happended.result, hchecked.result]
  have hauthor : r.authorHcpLabel = new.authorHcpLabel := by
    obtain ⟨_, -, hcreate⟩ := try_ok hchecked.created
    obtain ⟨_, -, hcreate⟩ := try_ok hcreate
    cases hcreate
    rfl
  refine ⟨conflict, content, ⟨r, some content⟩, event, hopen, hleft, hright, hdecides, hheads,
    hchecked.id_eq.symm, hauthor, resolvedContent_keeps hcontent, rfl, ?_, ?_, ?_, hevents, ?_⟩
  · -- no earlier event can name the new revision, and the new event rejects nothing
    refine openConflict_none hheads fun e he hkind hid => ?_
    rw [hevents, mem_append, mem_singleton] at he
    rcases he with he | rfl
    · exact hchecked.id_new (hf.eventRevision e he id hid)
    · rw [happended.eventType] at hkind
      cases hkind
  all_goals rw [happended.result, hchecked.result]

end TrackedFile

/-! ## §4. Two heads with one content. -/

namespace Sample

/-- Another author's edit with the same content as `left`. -/
def twin : StoredRevision :=
  stored 0xa59eaad107bc7a8425e78f4f6eedc668503b6127fc53ee775edeb207849242a5 [root.id]
    0x88be4230a99c2e75c15b55b897ad9d8dff18da9ae8e2e2c6c80e65bf38af66fd
    (.ofNat 16 3) "M.S.3" "2026-10-03T11:45:00Z" "20261003T114500Z" "three"

/-- The holder of `M` joins `left` and another head, with the content of `left`. -/
def joined (id : Nat) (other : StoredRevision) : StoredRevision :=
  stored id [left.id, other.id] 0x88be4230a99c2e75c15b55b897ad9d8dff18da9ae8e2e2c6c80e65bf38af66fd
    (.ofNat 16 9) "M" "2026-10-05T08:00:00Z" "20261005T080000Z" "three"

def merged : StoredRevision :=
  joined 0xba39f4ffd9ef36e92a1cb060050522f09359e6f6f5c62328a6d3e1fea4578c2a twin

def decided : StoredRevision :=
  joined 0x1ae2a680447168685e69c725364ea6dc163ad8520170c4ee0bdc5113d6df5e53 right

@[reducible] def settlingCrypto : Crypto :=
  .known (hashes ++ [twin, merged, decided].map fun stored =>
    (revisionIdDomain ++ bytesOf stored.revision.body, stored.id)) []

def twins : TrackedFile := file [root, left, twin] [] [] []

/-- The holder of `M` decides. -/
def decision : NewRevision :=
  ⟨[], none, some (.ofNat 16 9), "M", "2026-10-05T08:00:00Z", 1, policyHash⟩

end Sample

namespace TrackedFile

attribute [local instance] Sample.settlingCrypto CharTable.ascii
open Sample

theorem autoMerge_changes_sample :
    ∃ result f', autoMerge importIds left.id twin.id true decision twins = (.ok result, f')
      ∧ heads f'.revisions = [merged.id] ∧ result.mergeRevision = some merged.id
      ∧ f'.evaluateRevisionTrust merged.id Sample.policy Sample.keys ≠ .ok .trusted := by
  have hrun : autoMerge importIds left.id twin.id true decision twins
      = (.ok ⟨.alreadyEquivalent, "IDENTICAL_CONTENT", none, some (utf8Bytes "three"),
        some merged.id⟩, _) := Op.run_eq (by decide +kernel)
  have hold : heads twins.revisions = [left.id, twin.id] := by
    decide +kernel
  obtain ⟨id, stored, hid, -, hheads, -, -, htrust, -⟩ :=
    (autoMerge_changes ⟨genesis, by decide +kernel⟩ hrun).1 _ rfl (.inr rfl)
  obtain rfl : merged.id = id := Option.some.inj hid
  rw [hold] at hheads
  exact ⟨_, _, hrun, hheads, hid, htrust _ _⟩

theorem resolveConflict_settles_sample :
    ∃ f', resolveConflict importIds .keepLeft decision Sample.policy Sample.keys
        (file [root, left, right] [] [] []) = (.ok decided.id, f')
      ∧ heads f'.revisions = [decided.id] ∧ f'.openConflict true = .ok none := by
  have hrun : resolveConflict importIds .keepLeft decision Sample.policy Sample.keys
      (file [root, left, right] [] [] []) = (.ok decided.id, _) := Op.run_eq (by decide +kernel)
  obtain ⟨-, -, -, -, -, -, -, -, hheads, -, -, -, -, hopen, -⟩ :=
    resolveConflict_settles ⟨genesis, by decide +kernel⟩ hrun
  exact ⟨_, hrun, hheads, hopen true⟩

end TrackedFile

end KeyQuorum
