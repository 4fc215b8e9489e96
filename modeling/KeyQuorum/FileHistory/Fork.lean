/-
  **WHAT CAN BE DONE ABOUT A FORK.**

  `plan_auto_merge` and `open_conflict` are written for two heads, while
  `merge_history` can leave any number of them.  On a verified live file.
-/
import KeyQuorum.FileHistory.Ancestry
import KeyQuorum.FileHistory.Reviewer
import KeyQuorum.FileHistory.Signatures
import KeyQuorum.FileHistory.Union

namespace KeyQuorum

open List Foundation
open RevisionGraph (heads mem_heads mergeBase)

/-! ## §1. Heads. -/

variable {head : Digest}

namespace RevisionGraph

variable {revisions : List StoredRevision}
  (hpf : Dag.ParentsFirst StoredRevision.id StoredRevision.parents ∅ revisions)

include hpf

theorem heads_nodup : (heads revisions).Nodup := by
  exact hpf.nodup_keys.filter _

omit hpf in
theorem reach_head_eq (hhead : head ∈ heads revisions)
    (hreach : Dag.Reach StoredRevision.id StoredRevision.parents revisions d head) : d = head := by
  cases hreach with
  | refl => rfl
  | tail _ hlink =>
    obtain ⟨stored, hmem, -, hparent⟩ := hlink
    exact absurd hparent ((mem_heads.mp hhead).2 stored hmem)

theorem compare_heads (hleft : left ∈ heads revisions) (hright : right ∈ heads revisions)
    (hne : left ≠ right) : compare revisions left right = .ok .diverged := by
  obtain ⟨relation, hcompare, -, -, -, -, hdiverged⟩ :=
    compare_reach hpf (mem_heads.mp hleft).1 (mem_heads.mp hright).1
  rw [hcompare, hdiverged.mpr ⟨fun h => hne (reach_head_eq hright h), fun h => hne (reach_head_eq hleft h).symm⟩]

theorem mergeBase_mem (ha : a ∈ Dag.keys StoredRevision.id revisions)
    (h : mergeBase revisions a b = .unique base) : base ∈ Dag.keys StoredRevision.id revisions := by
  obtain ⟨hnearest, -⟩ := ((mergeBase_cases hpf ha).1 base).mp h
  exact hpf.reach_mem ha hnearest.1.1

end RevisionGraph

namespace TrackedFile

/-! ## §2. The plan of two heads. -/

/-- Two heads merge by themselves: their contents are the same, or they are texts whose changes to
the text of their only merge base do not touch. -/
def MergesCleanly (f : TrackedFile) (left right : Digest) : Prop :=
  f.contentOf left = f.contentOf right ∨ ∃ base baseBytes leftBytes rightBytes b l r text,
      mergeBase f.revisions left right = .unique base
        ∧ f.contentOf base = some baseBytes ∧ utf8? baseBytes = some b
        ∧ f.contentOf left = some leftBytes ∧ utf8? leftBytes = some l
        ∧ f.contentOf right = some rightBytes ∧ utf8? rightBytes = some r
        ∧ mergeText b.toList l.toList r.toList = .clean text

def AutoMerge.Joins (plan : AutoMerge) : Prop :=
  plan.outcome = .cleanMerge ∨ plan.outcome = .alreadyEquivalent

/-- The plan joins exactly when `P` holds, and asks for a person otherwise. -/
structure Decides (plan : AutoMerge) (P : Prop) : Prop where
  joins : AutoMerge.Joins plan ↔ P
  person : needsPerson plan.outcome = true ↔ ¬ AutoMerge.Joins plan

def HasAutoPlan [Crypto] [CharTable] (f : TrackedFile) (allowed : Bool) : Prop :=
  ∃ left ∈ heads f.revisions, ∃ right ∈ heads f.revisions,
    ∃ plan, f.planAutoMerge left right allowed = .ok plan ∧ AutoMerge.Joins plan

theorem decides_stop (reason : String) (base : Option Digest) (hperson : needsPerson outcome)
    (hno : ¬ P) : Decides (.stop outcome reason base) P := by
  have hapart : ¬ AutoMerge.Joins (.stop outcome reason base) := by
    rintro (h | h)
    · rw [show outcome = .cleanMerge from h] at hperson
      exact absurd hperson (by decide)
    · rw [show outcome = .alreadyEquivalent from h] at hperson
      exact absurd hperson (by decide)
  exact ⟨iff_of_false hapart hno, iff_of_true hperson hapart⟩

theorem decides_joins (hjoins : AutoMerge.Joins plan) (hyes : P) : Decides plan P := by
  refine ⟨iff_of_true hjoins hyes, iff_of_false ?_ (not_not_intro hjoins)⟩
  rcases hjoins with h | h <;> rw [h] <;> decide

section Plans

variable [Crypto] [CharTable] {f : TrackedFile} {plan : AutoMerge}

theorem contentOf_of_live (hf : WellFormed f) (hlive : f.isDestroyed = false) {id : Digest}
    (hid : id ∈ Dag.keys StoredRevision.id f.revisions) : ∃ bytes, f.contentOf id = some bytes := by
  obtain ⟨stored, hget⟩ := Option.isSome_iff_exists.mp (RevisionGraph.get_isSome.mpr hid)
  have hkept := hf.kept hlive stored (RevisionGraph.get_some hget).1
  obtain ⟨bytes, hbytes⟩ := Option.isSome_iff_exists.mp hkept
  refine ⟨bytes, ?_⟩
  show (RevisionGraph.get f.revisions id).bind StoredRevision.payload = some bytes
  rw [hget]
  exact hbytes

variable {left right : Digest} {allowed : Bool}

section

variable (hf : WellFormed f)

include hf

/-- The text merge of two heads with different contents joins them exactly when the changes do not
touch, and otherwise asks for a person. -/
theorem planTextMerge_spec (hlive : f.isDestroyed = false)
    (hknown : left ∈ Dag.keys StoredRevision.id f.revisions)
    (hleft : f.contentOf left = some leftBytes) (hright : f.contentOf right = some rightBytes)
    (hne : leftBytes ≠ rightBytes) :
    ∃ plan, f.planTextMerge left right leftBytes rightBytes = .ok plan
      ∧ Decides plan (f.MergesCleanly left right) := by
  unfold planTextMerge MergesCleanly
  simp only [hleft, hright, Option.some.injEq, hne, false_or]
  -- the guards in the source's order: the base, then the three texts, then the merge
  cases hbase : mergeBase f.revisions left right with
  | ambiguous => exact ⟨_, rfl, decides_stop _ _ rfl (by simp)⟩
  | none => exact ⟨_, rfl, decides_stop _ _ rfl (by simp)⟩
  | unique base =>
    obtain ⟨baseBytes, hcontent⟩ := contentOf_of_live hf hlive
      (RevisionGraph.mergeBase_mem hf.parentsFirst hknown hbase)
    dsimp only
    rw [hcontent]
    dsimp only
    cases hb : utf8? baseBytes with
    | none => exact ⟨_, rfl, decides_stop _ _ rfl (by simp [hcontent, hb])⟩
    | some b =>
    cases hl : utf8? leftBytes with
    | none => exact ⟨_, rfl, decides_stop _ _ rfl (by simp [hl])⟩
    | some l =>
    cases hr : utf8? rightBytes with
    | none => exact ⟨_, rfl, decides_stop _ _ rfl (by simp [hr])⟩
    | some r =>
    dsimp only
    cases hmerge : mergeText b.toList l.toList r.toList with
    | clean text =>
      exact ⟨_, rfl, decides_joins (.inl rfl) ⟨base, baseBytes, leftBytes, rightBytes, b,
        l, r, text, rfl, hcontent, hb, rfl, hl, rfl, hr, hmerge⟩⟩
    | conflict => exact ⟨_, rfl, decides_stop _ _ rfl (by simp [hcontent, hb, hl, hr, hmerge])⟩
    | tooLarge => exact ⟨_, rfl, decides_stop _ _ rfl (by simp [hcontent, hb, hl, hr, hmerge])⟩

/-- **The plan of two heads**: it exists, joins them exactly when the switch is on and they merge
by themselves, and otherwise asks for a person. -/
theorem planAutoMerge_heads (hlive : f.isDestroyed = false) (hleft : left ∈ heads f.revisions)
    (hright : right ∈ heads f.revisions) (hne : left ≠ right) (allowed : Bool) :
    ∃ plan, f.planAutoMerge left right allowed = .ok plan
      ∧ Decides plan (allowed ∧ f.MergesCleanly left right) := by
  obtain ⟨leftBytes, hl⟩ := contentOf_of_live hf hlive (mem_heads.mp hleft).1
  obtain ⟨rightBytes, hr⟩ := contentOf_of_live hf hlive (mem_heads.mp hright).1
  obtain ⟨root, hroot⟩ := verifyStructure_isOk.mpr hf
  have hplan : f.planAutoMerge left right allowed
      = f.planRelated left right allowed leftBytes rightBytes .diverged := by
    unfold planAutoMerge
    rw [hl, hr, hroot, RevisionGraph.compare_heads hf.parentsFirst hleft hright hne]
    rfl
  rw [hplan]
  unfold planRelated
  dsimp only
  rw [if_neg (by simp [hleft, hright])]
  by_cases hallowed : allowed
  · rw [if_neg (by simp [hallowed])]
    by_cases hsame : leftBytes = rightBytes
    · rw [if_pos hsame]
      exact ⟨_, rfl, decides_joins (.inr rfl) ⟨hallowed, .inl (by rw [hl, hr, hsame])⟩⟩
    · rw [if_neg hsame]
      obtain ⟨plan, hok, hdecides⟩ := planTextMerge_spec hf hlive (mem_heads.mp hleft).1 hl hr hsame
      exact ⟨plan, hok, hdecides.joins.trans (by simp [hallowed]), hdecides.person⟩
  · rw [if_pos (by simp [hallowed])]
    exact ⟨_, rfl, decides_stop _ _ rfl fun h => hallowed h.1⟩

theorem planAutoMerge_self (h : f.planAutoMerge head head allowed = .ok plan) :
    ¬ AutoMerge.Joins plan := by
  obtain ⟨root, hroot⟩ := verifyStructure_isOk.mpr hf
  unfold planAutoMerge at h
  split at h
  next leftBytes rightBytes hl hr =>
    rw [hroot] at h
    obtain ⟨relation, hcompare, hplan⟩ := try_ok h
    unfold RevisionGraph.compare at hcompare
    split at hcompare
    · cases hcompare
    · rw [if_pos rfl] at hcompare
      cases hcompare
      cases hplan
      simp [AutoMerge.Joins, AutoMerge.withContent]
  next => cases h

theorem hasAutoPlan_iff (hlive : f.isDestroyed = false) :
    f.HasAutoPlan allowed ↔ allowed ∧ ∃ left ∈ heads f.revisions, ∃ right ∈ heads f.revisions,
        left ≠ right ∧ f.MergesCleanly left right := by
  constructor
  · rintro ⟨left, hleft, right, hright, plan, hplan, hjoins⟩
    by_cases hne : left = right
    · subst hne
      exact absurd hjoins (planAutoMerge_self hf hplan)
    · obtain ⟨plan', hplan', hdecides⟩ := planAutoMerge_heads hf hlive hleft hright hne allowed
      rw [hplan] at hplan'
      obtain rfl := Except.ok.inj hplan'
      obtain ⟨hallowed, hclean⟩ := hdecides.joins.mp hjoins
      exact ⟨hallowed, left, hleft, right, hright, hne, hclean⟩
  · rintro ⟨hallowed, left, hleft, right, hright, hne, hclean⟩
    obtain ⟨plan, hplan, hdecides⟩ := planAutoMerge_heads hf hlive hleft hright hne allowed
    exact ⟨left, hleft, right, hright, plan, hplan, hdecides.joins.mpr ⟨hallowed, hclean⟩⟩

/-- **Two heads without an automatic plan are reported.** -/
theorem openConflict_two_heads (hlive : f.isDestroyed = false)
    (hheads : heads f.revisions = [left, right]) (hnone : ¬ f.HasAutoPlan allowed) :
    f.openConflict allowed = .ok (some ⟨left, right, [left, right]⟩) := by
  have hleft : left ∈ heads f.revisions := by rw [hheads]; simp
  have hright : right ∈ heads f.revisions := by rw [hheads]; simp
  have hne : left ≠ right := by
    have hnodup := RevisionGraph.heads_nodup hf.parentsFirst
    rw [hheads] at hnodup
    simpa using hnodup
  obtain ⟨plan, hplan, hdecides⟩ := planAutoMerge_heads hf hlive hleft hright hne allowed
  have hneeds : needsPerson plan.outcome :=
    hdecides.person.mpr fun hj => hnone ⟨left, hleft, right, hright, plan, hplan, hj⟩
  unfold openConflict
  rw [hheads]
  simp [RevisionGraph.compare_heads hf.parentsFirst hleft hright hne, hplan, hneeds]

end

theorem openConflict_many_heads
    (hmany : 2 < (heads f.revisions).length) : f.openConflict allowed = .ok none := by
  unfold openConflict
  split
  next heads => rw [heads] at hmany; simp at hmany
  next heads => rw [heads] at hmany; simp at hmany
  next => rfl

end Plans

/-! ## §3. Settling what is reported. -/

/-- Someone may decide the conflict, every resolution has a content, and whoever may decide
settles it with any new revision whose texts fit, unless SHA-256 collides on it. -/
structure Settleable [Crypto] [CharTable] (f : TrackedFile) (policy : FilePolicy) (ctx : TrustContext)
    (conflict : OpenConflict) : Prop where
  someone : ∃ label, f.mayDecide conflict.left conflict.right label policy ctx = .ok true
  content : ∀ resolution, ∃ bytes, f.resolvedContent conflict resolution = .ok bytes
  settles : ∀ (rng : Nat → Id16) (resolution : Resolution) (new : NewRevision) (bytes : Bytes)
    (r : FileRevision),
    f.mayDecide conflict.left conflict.right new.authorHcpLabel policy ctx = .ok true →
    f.resolvedContent conflict resolution = .ok bytes →
    FileRevision.create f.fileId f.logicalName bytes
      { new with parentRevisionIds := conflict.parents } = .ok r →
    CollisionFree (revisionMessages f ++ storedMessages f.fileId ⟨r, some bytes⟩) →
    ∃ f', resolveConflict rng resolution new policy ctx f = (.ok r.revisionId, f')

/-- A fork is not stuck under the policy the commands run with: two heads have an automatic plan, or a
conflict is reported that a person can settle. -/
def ForkSettled [Crypto] [CharTable] (f : TrackedFile) (policy : FilePolicy) (ctx : TrustContext) : Prop :=
  f.HasAutoPlan policy.autoMerge ∨ ∃ conflict, f.openConflict policy.autoMerge = .ok (some conflict)
    ∧ f.Settleable policy ctx conflict

/-- The rules assign a reviewer, or someone at or above the scope root wrote neither head. -/
def HasDecider [Crypto] (f : TrackedFile) (left right : Digest) (policy : FilePolicy) (ctx : TrustContext) :
    Prop :=
  (∃ reviewer rule from_, f.selectResolver left right policy ctx = .ok (.assigned reviewer rule from_))
    ∨ ∃ label, isAncestorOrSelf label policy.scopeRoot = true
      ∧ f.authorOf left ≠ .ok label ∧ f.authorOf right ≠ .ok label

section Settling

variable [Crypto] {f : TrackedFile} {left right : Digest} {bytes : Bytes} {new : NewRevision}
  {r : FileRevision} {rightAuthor leftAuthor : String}

section

omit [Crypto]

theorem authorOf_of_mem {id : Digest} (hid : id ∈ Dag.keys StoredRevision.id f.revisions) :
    ∃ author, f.authorOf id = .ok author := by
  obtain ⟨stored, hget⟩ := Option.isSome_iff_exists.mp (RevisionGraph.get_isSome.mpr hid)
  refine ⟨stored.revision.authorHcpLabel, ?_⟩
  unfold authorOf
  rw [show f.get id = some stored from hget]

theorem wholeSeconds_fits (h : FitsField instant) : FitsField (wholeSeconds instant) := by
  unfold wholeSeconds
  split
  next before after _ hsplit _ =>
    have hwhole : instant.toList = before ++ '.' :: after := splitOnce_some hsplit
    have hlen : (utf8Bytes instant).length = String.utf8Len before + (String.utf8Len after + 1) := by
      rw [length_utf8Bytes, hwhole, String.utf8Len_append, String.utf8Len_cons]
      rfl
    unfold FitsField at h ⊢
    rw [length_utf8Bytes, String.toList_ofList, String.utf8Len_append]
    show String.utf8Len before + 1 < 256 ^ 2
    omega
  next => exact h

theorem fitsField_name (resolution : Resolution) : FitsField resolution.name := by
  cases resolution with
  | keepLeft => decide
  | keepRight => decide
  | edited => exact (by decide : FitsField "EDITED")

theorem resolvedEvent_fits (hlabel : FitsField new.authorHcpLabel) (hat : FitsField new.createdAtUtc) :
    (resolvedEvent new conflict resolution merged).Fits := by
  refine ⟨wholeSeconds_fits hat, ?_, ?_, ?_⟩
  · intro label h
    cases h
    exact hlabel
  · show 5 < 256 ^ 2
    decide
  · intro entry hentry
    simp only [resolvedEvent, mergeEvent, EventDetails.new, EventDetails.withDetail,
      nil_append, cons_append, mem_cons, not_mem_nil, or_false] at hentry
    rcases hentry with rfl | rfl | rfl | rfl | rfl
    · exact ⟨(by decide : FitsField "revision_a"), fitsField_digest _⟩
    · exact ⟨(by decide : FitsField "revision_b"), fitsField_digest _⟩
    · exact ⟨(by decide : FitsField "resolution"), fitsField_name resolution⟩
    · exact ⟨(by decide : FitsField "reviewer"), hlabel⟩
    · exact ⟨(by decide : FitsField "trust_state"), (by decide : FitsField "PENDING")⟩

end

/-- **Who may decide between two authors.** -/
theorem exists_mayDecide_iff {policy : FilePolicy} {ctx : TrustContext}
    (hleft : f.authorOf left = .ok leftAuthor) (hright : f.authorOf right = .ok rightAuthor) :
    (∃ label, f.mayDecide left right label policy ctx = .ok true) ↔ f.HasDecider left right policy ctx := by
  obtain ⟨selection, hselect⟩ : ∃ selection, f.selectResolver left right policy ctx = .ok selection := by
    unfold selectResolver
    rw [hleft, hright]
    exact ⟨_, rfl⟩
  simp only [HasDecider, mayDecide_iff, hselect, Except.ok.injEq, exists_eq_left']
  cases selection with
  | assigned reviewer rule from_ =>
    obtain ⟨hl, hr, hmay⟩ := selectResolver_eligible hselect
    have hself := isAncestorOrSelf_self (FilePolicy.mayAuthor_iff.mp hmay).2.1
    exact iff_of_true ⟨reviewer, hl, hr, hself⟩ (.inl ⟨reviewer, rule, from_, rfl⟩)
  | unresolved =>
    simp only [reduceCtorEq, exists_false, false_or]
    exact exists_congr fun label => and_rotate.symm

variable [CharTable] {conflict : OpenConflict} {resolution : Resolution} {id : Digest}

theorem create_id_fresh (hf : WellFormed f) (hhead : head ∈ heads f.revisions)
    (hcreate : FileRevision.create f.fileId f.logicalName bytes new = .ok r)
    (hparent : head ∈ new.parentRevisionIds)
    (hfree : CollisionFree (revisionMessages f ++ storedMessages f.fileId ⟨r, some bytes⟩)) :
    r.revisionId ∉ Dag.keys StoredRevision.id f.revisions := by
  rintro ⟨stored, hmem, hid⟩
  obtain ⟨-, hcompute, -, hparents, -⟩ := FileRevision.create_ok hcreate
  obtain ⟨body, hbody, hnew⟩ := try_ok hcompute
  obtain ⟨old, hold, hmessage, hidOld⟩ := (hf.revisionOk stored hmem).id_of_mem hmem
  have hmine : revisionIdDomain ++ body ∈ storedMessages f.fileId ⟨r, some bytes⟩ := by
    simp [storedMessages, hbody, Except.toOption]
  -- the same id comes from the same body, so the stored revision would have `head` as a parent
  have hsame := hfree _ (mem_append_left _ hmessage) _ (mem_append_right _ hmine)
    (hidOld.symm.trans (hid.trans (Except.ok.inj hnew).symm))
  rw [append_cancel_left hsame] at hold
  have hrevision : stored.revision = r := FileRevision.eq_of_body_eq hold hbody hid
  refine (mem_heads.mp hhead).2 stored hmem ?_
  show head ∈ stored.revision.parentRevisionIds
  rw [hrevision, hparents]
  exact hparent

theorem checkIn_total (hlive : f.isDestroyed = false) (hne : new.parentRevisionIds ≠ [])
    (hknown : ∀ p ∈ new.parentRevisionIds, p ∈ Dag.keys StoredRevision.id f.revisions)
    (hnodup : new.parentRevisionIds.Nodup)
    (hcreate : FileRevision.create f.fileId f.logicalName bytes new = .ok r)
    (hfresh : r.revisionId ∉ Dag.keys StoredRevision.id f.revisions) :
    checkIn new bytes f = (.ok r.revisionId,
      { f with revisions := f.revisions ++ [⟨r, some bytes⟩] }) := by
  have hstored : f.revisions ≠ [] := by
    obtain ⟨p, hp⟩ := exists_mem_of_ne_nil _ hne
    obtain ⟨stored, hmem, -⟩ := hknown p hp
    exact ne_nil_of_mem hmem
  have hall : new.parentRevisionIds.all (fun parent => (f.get parent).isSome) :=
    all_eq_true.mpr fun p hp => RevisionGraph.get_isSome.mpr (hknown p hp)
  have hnone : (f.get r.revisionId).isNone := by
    rw [← Option.not_isSome, Bool.not_eq_true', Bool.eq_false_iff]
    exact fun h => hfresh (RevisionGraph.get_isSome.mp h)
  unfold checkIn
  rw [Op.read_bind, Op.require_bind (by simp [hlive]), Op.require_bind, Op.lift_bind hcreate,
    Op.require_bind hnone]
  · rfl
  · rw [isEmpty_eq_false_iff.mpr hne, isEmpty_eq_false_iff.mpr hstored, hall,
      parentsDistinct_iff.mpr hnodup]
    rfl

theorem create_fits {fileId : Id16} (h : FileRevision.create fileId name bytes new = .ok r) :
    FitsField new.authorHcpLabel ∧ FitsField new.createdAtUtc := by
  obtain ⟨generated, -, h⟩ := try_ok h
  obtain ⟨id, hid, -⟩ := try_ok h
  obtain ⟨body, hbody, -⟩ := try_ok hid
  obtain ⟨_, -, hbody⟩ := try_ok hbody
  obtain ⟨_, -, hbody⟩ := try_ok hbody
  obtain ⟨_, -, hbody⟩ := try_ok hbody
  obtain ⟨_, -, hbody⟩ := try_ok hbody
  obtain ⟨label, hlabel, hbody⟩ := try_ok hbody
  obtain ⟨created, hcreated, -⟩ := try_ok hbody
  exact ⟨pushStr_isOk_iff.mp ⟨label, hlabel⟩, pushStr_isOk_iff.mp ⟨created, hcreated⟩⟩

/-- **Whoever may decide a reported conflict can settle it**: the checks are met, the revision is
new, and the event can be recorded. -/
theorem resolveConflict_total (rng : Nat → Id16) (hf : WellFormed f) (hlive : f.isDestroyed = false)
    {policy : FilePolicy} (hopen : f.openConflict policy.autoMerge = .ok (some conflict))
    (hmay : f.mayDecide conflict.left conflict.right new.authorHcpLabel policy ctx = .ok true)
    (hcontent : f.resolvedContent conflict resolution = .ok bytes)
    (hcreate : FileRevision.create f.fileId f.logicalName bytes
      { new with parentRevisionIds := conflict.parents } = .ok r)
    (hheads : ∀ p ∈ conflict.parents, p ∈ heads f.revisions) (hne : conflict.parents ≠ [])
    (hnodup : conflict.parents.Nodup)
    (hfree : CollisionFree (revisionMessages f ++ storedMessages f.fileId ⟨r, some bytes⟩)) :
    ∃ f', resolveConflict rng resolution new policy ctx f = (.ok r.revisionId, f') := by
  obtain ⟨head, hhead⟩ := exists_mem_of_ne_nil _ hne
  have hfresh := create_id_fresh hf (hheads head hhead) hcreate hhead hfree
  have hcheckIn : checkIn { new with parentRevisionIds := conflict.parents } bytes f
      = (.ok r.revisionId, { f with revisions := f.revisions ++ [⟨r, some bytes⟩] }) :=
    checkIn_total hlive hne (fun p hp => (mem_heads.mp (hheads p hp)).1) hnodup hcreate hfresh
  obtain ⟨hlabel, hat⟩ := create_fits hcreate
  have hknown : ∀ id, (resolvedEvent new conflict resolution r.revisionId).revisionId = some id →
      id ∈ Dag.keys StoredRevision.id (f.revisions ++ [⟨r, some bytes⟩]) := by
    intro id hid
    cases hid
    exact ⟨⟨r, some bytes⟩, mem_concat_self, rfl⟩
  obtain ⟨event, f', happend⟩ := append_total rng
    (f := { f with revisions := f.revisions ++ [⟨r, some bytes⟩] }) hf.chain rfl hknown
    (resolvedEvent_fits hlabel hat)
  have hrequire : f.requireConflict policy.autoMerge = .ok conflict := by
    unfold requireConflict
    rw [hopen]
    rfl
  refine ⟨f', Op.rollback_of_ok ?_⟩
  unfold resolveConflictSteps
  rw [Op.read_bind, Op.lift_bind hrequire, Op.lift_bind hmay, Op.require_bind rfl,
    Op.lift_bind hcontent, Op.bind_of_ok hcheckIn, Op.bind_of_ok happend]
  rfl

theorem settleable_two_heads {policy : FilePolicy} {ctx : TrustContext} (hf : WellFormed f)
    (hlive : f.isDestroyed = false) (hheads : heads f.revisions = [left, right])
    (hopen : f.openConflict policy.autoMerge = .ok (some ⟨left, right, [left, right]⟩)) :
    f.Settleable policy ctx ⟨left, right, [left, right]⟩ ↔ f.HasDecider left right policy ctx := by
  have hleft : left ∈ heads f.revisions := by rw [hheads]; simp
  have hright : right ∈ heads f.revisions := by rw [hheads]; simp
  have hnodup : [left, right].Nodup := hheads ▸ RevisionGraph.heads_nodup hf.parentsFirst
  obtain ⟨leftAuthor, hl⟩ := authorOf_of_mem (mem_heads.mp hleft).1
  obtain ⟨rightAuthor, hr⟩ := authorOf_of_mem (mem_heads.mp hright).1
  rw [← exists_mayDecide_iff hl hr]
  refine ⟨Settleable.someone, fun hsomeone => ⟨hsomeone, ?_, ?_⟩⟩
  · obtain ⟨leftBytes, hl⟩ := contentOf_of_live hf hlive (mem_heads.mp hleft).1
    obtain ⟨rightBytes, hr⟩ := contentOf_of_live hf hlive (mem_heads.mp hright).1
    intro resolution
    cases resolution with
    | keepLeft => exact ⟨leftBytes, by simp [resolvedContent, hl]⟩
    | keepRight => exact ⟨rightBytes, by simp [resolvedContent, hr]⟩
    | edited bytes => exact ⟨bytes, rfl⟩
  · intro rng resolution new bytes r hmay hcontent hcreate hfree
    refine resolveConflict_total rng hf hlive hopen hmay hcontent hcreate ?_ (by simp) hnodup hfree
    intro p hp
    rw [hheads]
    exact hp

/-- **When a fork is not stuck.**  On a verified live file with several heads: exactly when there are two of
them and someone may decide between these, or the switch is on and two of them merge by themselves. -/
theorem forkSettled_iff (hverify : ∃ root, verifyStructure f = .ok root) (hlive : f.isDestroyed = false)
    (hfork : 2 ≤ (heads f.revisions).length) (policy : FilePolicy) (ctx : TrustContext) :
    f.ForkSettled policy ctx
      ↔ (∃ left right, heads f.revisions = [left, right] ∧ f.HasDecider left right policy ctx)
        ∨ policy.autoMerge = true ∧ ∃ left ∈ heads f.revisions, ∃ right ∈ heads f.revisions,
          left ≠ right ∧ f.MergesCleanly left right := by
  have hf := verifyStructure_isOk.mp hverify
  rw [← hasAutoPlan_iff hf hlive]
  unfold ForkSettled
  by_cases hauto : f.HasAutoPlan policy.autoMerge
  · exact iff_of_true (.inl hauto) (.inr hauto)
  · rw [or_iff_right hauto, or_iff_left hauto]
    constructor
    · rintro ⟨conflict, hopen, hsettle⟩
      have htwo : (heads f.revisions).length = 2 := by
        by_contra hno
        rw [openConflict_many_heads (by omega)] at hopen
        cases hopen
      obtain ⟨left, right, hheads⟩ := length_eq_two.mp htwo
      have hsame := hopen.symm.trans (openConflict_two_heads hf hlive hheads hauto)
      obtain rfl : conflict = ⟨left, right, [left, right]⟩ := by simpa using hsame
      exact ⟨left, right, hheads, (settleable_two_heads hf hlive hheads hopen).mp hsettle⟩
    · rintro ⟨left, right, hheads, hdecider⟩
      have hopen := openConflict_two_heads hf hlive hheads hauto
      exact ⟨_, hopen, (settleable_two_heads hf hlive hheads hopen).mpr hdecider⟩

end Settling

end TrackedFile

/-! ## §4. Three edits of one revision. -/

namespace Sample

@[reducible] def forkCrypto : Crypto :=
  .known (hashes ++ [(revisionIdDomain ++ bytesOf third.revision.body, third.id),
    ([contentDomain, fileId.bytes, third.payload.getD []].flatten, third.revision.contentCommitment)]) []

def threeHeads : TrackedFile := file [root, left, right, third] [] [] []

end Sample

namespace TrackedFile

attribute [local instance] Sample.forkCrypto CharTable.ascii
open Sample

/-- The holder of `M` may decide between the two edits. -/
theorem forkSettled_iff_sample :
    heads (file [root, left, right] [] [] []).revisions = [left.id, right.id]
      ∧ (file [root, left, right] [] [] []).ForkSettled Sample.policy Sample.keys := by
  have hheads : heads (file [root, left, right] [] [] []).revisions
        = [left.id, right.id] := by decide +kernel
  refine ⟨hheads, (forkSettled_iff ⟨genesis, by decide +kernel⟩ (by decide +kernel)
    (by rw [hheads]; decide) _ _).mpr (.inl ⟨left.id, right.id, hheads, .inr ⟨"M", ?_⟩⟩)⟩
  decide +kernel

/-- A file with three heads: no merge joins two of them and no conflict is open. -/
theorem three_heads_stuck :
    verifyStructure threeHeads = .ok genesis ∧ threeHeads.isDestroyed = false
      ∧ heads threeHeads.revisions = [left.id, right.id, third.id]
      ∧ ∀ policy ctx, ¬ threeHeads.ForkSettled policy ctx := by
  have hheads : heads threeHeads.revisions
      = [left.id, right.id, third.id] := by decide +kernel
  have hplans : ∀ allowed, ∀ left ∈ heads threeHeads.revisions, ∀ right ∈ heads threeHeads.revisions,
      ((threeHeads.planAutoMerge left right allowed).toOption.map AutoMerge.outcome).all
        (fun outcome => outcome ≠ .cleanMerge && outcome ≠ .alreadyEquivalent) = true := by
    decide +kernel
  refine ⟨by decide +kernel, by decide +kernel, hheads, fun policy ctx => ?_⟩
  rintro (⟨left, hleft, right, hright, plan, hplan, hjoins⟩ | ⟨conflict, hopen, -⟩)
  · have hoff := hplans policy.autoMerge left hleft right hright
    rw [hplan] at hoff
    rcases hjoins with h | h <;> simp [Except.toOption, h] at hoff
  · rw [openConflict_many_heads (by rw [hheads]; decide)] at hopen
    cases hopen

end TrackedFile

end KeyQuorum
