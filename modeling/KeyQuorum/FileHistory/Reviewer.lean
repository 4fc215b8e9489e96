/-
  **WHO REVIEWS A CONFLICT** (`select_resolver` in `file_history/resolve.rs`).

  The reviewer is impartial: never one of the two authors, the same from
  either side, and the same whatever bridges the store reports.  The owners
  it is chosen from are judged through `WithoutBridges`, which drops the
  recorded keys along with the bridges; when that matters.
-/
import KeyQuorum.FileHistory.Resolve

namespace KeyQuorum

open List Foundation

/-! ## §1. The rules. -/

section Rules

variable {reviewer : String} {rule : SelectionRule} {from_ : List String}

theorem escalate_eligible (h : escalate eligible tied = .assigned reviewer rule from_) :
    eligible reviewer := by
  unfold escalate at h
  split at h
  next label _ =>
    split at h
    next hlabel =>
      cases h
      exact hlabel
    next => cases h
  next => cases h

theorem breakTie_eligible (htied : ∀ label ∈ tied, eligible label)
    (h : breakTie eligible history tied = .assigned reviewer rule from_) : eligible reviewer := by
  unfold breakTie at h
  dsimp only at h
  split at h
  next leader _ =>
    split at h
    next only honly =>
      cases h
      have hmem : reviewer ∈ tied.filter fun label => sector label = leader := by
        rw [honly]
        exact .head _
      exact htied reviewer (mem_filter.mp hmem).1
    next => exact escalate_eligible h
  next => exact escalate_eligible h

theorem mostSenior_eligible (h : mostSenior eligible history = .assigned reviewer rule from_) :
    eligible reviewer := by
  unfold mostSenior at h
  dsimp only at h
  split at h
  next => cases h
  next shallowest _ =>
    have hcandidate : ∀ label ∈ (history.filter eligible).filter fun label => depth label = shallowest,
        eligible label := fun label hlabel =>
      (mem_filter.mp (mem_filter.mp hlabel).1).2
    split at h
    next only honly =>
      cases h
      refine hcandidate reviewer ?_
      rw [honly]
      exact .head _
    next => exact breakTie_eligible hcandidate h

/-- The rules read the candidates in order, and of the others only how many share a sector. -/
theorem mostSenior_congr (hperm : history.Perm history')
    (hsame : history.filter eligible = history'.filter eligible) :
    mostSenior eligible history = mostSenior eligible history' := by
  have hcount (s : String) : (history.filter fun label => sector label = s).length
      = (history'.filter fun label => sector label = s).length := (hperm.filter _).length_eq
  unfold mostSenior breakTie
  simp only [hsame, hcount]

end Rules

namespace TrackedFile

/-! ## §2. Either side. -/

/-- The labels `distinct` adds to those it has collected. -/
theorem distinct_fold (labels out : List String) :
    ∃ added, labels.foldl (fun out label => if out.contains label then out else out ++ [label]) out
        = out ++ added
      ∧ added ⊆ labels ∧ labels ⊆ out ++ added ∧ (out.Nodup → (out ++ added).Nodup) := by
  induction labels generalizing out with
  | nil => exact ⟨[], by simp⟩
  | cons label rest ih =>
    rw [foldl_cons]
    split
    next hold =>
      obtain ⟨added, heq, hsub, hall, hnodup⟩ := ih out
      exact ⟨added, heq, fun x hx => .tail _ (hsub hx), by grind, hnodup⟩
    next hnew =>
      obtain ⟨added, heq, hsub, hall, hnodup⟩ := ih (out ++ [label])
      rw [append_assoc, singleton_append] at heq hall hnodup
      refine ⟨label :: added, heq, cons_subset_cons label hsub, by grind, fun h => hnodup ?_⟩
      exact nodup_snoc h (by simpa using hnew)

theorem distinct_subset (labels : List String) : distinct labels ⊆ labels := by
  obtain ⟨added, heq, hsub, -⟩ := distinct_fold labels []
  unfold distinct
  rwa [heq]

theorem nodup_distinct (labels : List String) : (distinct labels).Nodup := by
  obtain ⟨added, heq, -, -, hnodup⟩ := distinct_fold labels []
  unfold distinct
  rw [heq]
  exact hnodup nodup_nil

theorem mem_distinct : label ∈ distinct labels ↔ label ∈ labels := by
  obtain ⟨added, heq, -, hall, -⟩ := distinct_fold labels []
  refine ⟨fun h => distinct_subset labels h, fun h => ?_⟩
  unfold distinct
  rw [heq]
  exact hall h

theorem filter_distinct_append (owners : List String) (h : ∀ label ∈ authors, eligible label = false) :
    (distinct (owners ++ authors)).filter eligible = (distinct owners).filter eligible := by
  obtain ⟨added, heq, hsub, -⟩ := distinct_fold authors (distinct owners)
  have hnone : added.filter eligible = [] :=
    filter_eq_nil_iff.mpr fun label hlabel => by simp [h label (hsub hlabel)]
  have hsplit : distinct (owners ++ authors) = distinct owners ++ added := by
    rw [← heq]
    unfold distinct
    rw [foldl_append]
  rw [hsplit, filter_append, hnone, append_nil]

/-- The two authors come last in the history and are no candidates, so their order is not seen. -/
theorem mostSenior_swap (owners : List String) (h : ∀ label ∈ [l, r], eligible label = false) :
    mostSenior eligible (distinct (owners ++ distinct [r, l]))
      = mostSenior eligible (distinct (owners ++ distinct [l, r])) := by
  refine mostSenior_congr ?_ ?_
  · rw [perm_ext_iff_of_nodup (nodup_distinct _) (nodup_distinct _)]
    intro label
    simp only [mem_distinct, mem_append, mem_cons, not_mem_nil, or_false]
    rw [or_comm (a := label = r)]
  · rw [filter_distinct_append, filter_distinct_append]
    all_goals grind [mem_distinct]

variable [Crypto] {revision : FileRevision} {proof : RevisionProof}

theorem selectResolver_eligible {f : TrackedFile} {left right : Digest} {policy : FilePolicy}
    {ctx : TrustContext} {reviewer : String} {rule : SelectionRule} {from_ : List String}
    (h : f.selectResolver left right policy ctx = .ok (.assigned reviewer rule from_)) :
    f.authorOf left ≠ .ok reviewer ∧ f.authorOf right ≠ .ok reviewer ∧ policy.mayAuthor reviewer = true := by
  obtain ⟨l, hl, h⟩ := try_ok h
  obtain ⟨r, hr, h⟩ := try_ok h
  have hchosen : (policy.mayAuthor reviewer && !(distinct [l, r]).contains reviewer) := by
    have h := Except.ok.inj h
    split at h
    next id label hfind =>
      cases h
      have hpassed := List.find?_some hfind
      exact (Bool.and_eq_true_iff.mp hpassed).2
    next => exact mostSenior_eligible h
  rw [Bool.and_eq_true, Bool.not_eq_true', ← Bool.not_eq_true, contains_iff_mem, mem_distinct, mem_cons,
    mem_singleton, not_or] at hchosen
  obtain ⟨hmay, hleft, hright⟩ := hchosen
  rw [hl, hr]
  exact ⟨fun h => hleft (Except.ok.inj h).symm, fun h => hright (Except.ok.inj h).symm, hmay⟩

theorem selectResolver_swap (f : TrackedFile) (left right : Digest) (policy : FilePolicy)
    (ctx : TrustContext) :
    f.selectResolver right left policy ctx = f.selectResolver left right policy ctx := by
  unfold selectResolver
  cases hl : f.authorOf left with
  | error e =>
    cases hr : f.authorOf right with
    | error e' =>
      unfold authorOf at hl hr
      split at hl <;> cases hl
      split at hr <;> cases hr
      rfl
    | ok r => rfl
  | ok l =>
    cases hr : f.authorOf right with
    | error e => rfl
    | ok r =>
      have hpair (label : String) : (distinct [r, l]).contains label = (distinct [l, r]).contains label := by
        rw [Bool.eq_iff_iff, contains_iff_mem, contains_iff_mem, mem_distinct, mem_distinct]
        simp only [mem_cons, not_mem_nil, or_false]
        exact or_comm
      have hauthors : ∀ label ∈ [l, r],
          (policy.mayAuthor label && !(distinct [l, r]).contains label) = false := by
        intro label hlabel
        rw [contains_iff_mem.mpr (mem_distinct.mpr hlabel), Bool.not_true, Bool.and_false]
      simp only [except_ok_bind, hpair, mostSenior_swap _ hauthors,
        Bool.and_comm ((RevisionGraph.ancestorSet f.revisions right).contains _)]

/-- **The reviewer is impartial**: no author of either side, someone who may author under the policy,
the same from either side, and the same whatever bridges the store reports. -/
theorem selectResolver_neutral (f : TrackedFile) (left right : Digest) (policy : FilePolicy)
    (ctx : TrustContext) :
    (∀ reviewer rule from_, f.selectResolver left right policy ctx = .ok (.assigned reviewer rule from_) →
        f.authorOf left ≠ .ok reviewer ∧ f.authorOf right ≠ .ok reviewer
          ∧ policy.mayAuthor reviewer = true)
      ∧ f.selectResolver right left policy ctx = f.selectResolver left right policy ctx
      ∧ ∀ evidence ofRevision between, f.selectResolver left right policy { ctx with
            bridgeEvidence := evidence, revisionBridgeEvidence := ofRevision, bridgeBetween := between }
        = f.selectResolver left right policy ctx :=
  ⟨fun _ _ _ h => selectResolver_eligible h, selectResolver_swap f left right policy ctx,
    fun _ _ _ => rfl⟩

/-! ## §3. The owners. -/

section

variable (f : TrackedFile) (id : Digest) (policy : FilePolicy) (ctx : TrustContext)

end

variable {f : TrackedFile} {policy : FilePolicy} {ctx : TrustContext} {id : Digest}

end TrackedFile

/-! ## §4. An owner with a new key. -/

namespace Sample

/-- A third edit of the owner's revision, by the holder of `M.S.3`. -/
def third : StoredRevision :=
  stored 0xc9feaa4044351d6837c67480786c14f7eecccf576cc069687c6b8aafecce87dc [root.id]
    0x183a3761c8b8a3074d4ed844893e21700bac4a09e42b4a7b0f13e7c5efa261fb
    (.ofNat 16 3) "M.S.3" "2026-10-03T11:45:00Z" "20261003T114500Z" "five"

def twoEdits : TrackedFile := file [root, right, third] [signedRoot] [] []

end Sample

namespace TrackedFile

attribute [local instance] Sample.trustCrypto CharTable.ascii
open Sample

theorem selectResolver_neutral_sample :
    twoEdits.selectResolver right.id third.id Sample.policy Sample.keys
        = .ok (.assigned "M.S" .priorNeutralOwner [])
      ∧ Sample.policy.mayAuthor "M.S" = true := by
  have hselect : twoEdits.selectResolver right.id third.id Sample.policy Sample.keys
      = .ok (.assigned "M.S" .priorNeutralOwner []) := by decide +kernel
  exact ⟨hselect, ((selectResolver_neutral _ _ _ _ _).1 _ _ _ hselect).2.2⟩

end TrackedFile

/-! ## §5. Who decides. -/

namespace Sample

/-- A revision under a label that stands nowhere. -/
def unnamed (stored : StoredRevision) : StoredRevision :=
  { stored with revision := { stored.revision with authorHcpLabel := "" } }

def unnamedEdits : TrackedFile := file ([root, left, right].map unnamed) [] [] []

def supervisorsForbidden : FilePolicy := { Sample.policy with ancestors := .forbidden }

end Sample

/-- The label whose line decides: the reviewer's, or the scope root's where the rules find nobody. -/
def ResolverSelection.line (policy : FilePolicy) : ResolverSelection → String
  | .assigned reviewer _ _ => reviewer
  | .unresolved => policy.scopeRoot

namespace TrackedFile

open Sample

section

variable [Crypto] [CharTable]

omit [Crypto] [CharTable] in
theorem unnamedEdits_authors {id : Digest} (h : id ∈ [left.id, right.id]) :
    unnamedEdits.authorOf id = .ok "" := by
  revert h
  revert id
  decide +kernel

omit [CharTable] in
theorem unnamedEdits_unresolved (policy : FilePolicy) (ctx : TrustContext) :
    unnamedEdits.selectResolver left.id right.id policy ctx = .ok .unresolved := by
  have htrusted : unnamedEdits.trustedAuthors policy ctx = [] := by
    refine filter_eq_nil_iff.mpr fun entry _ h => ?_
    obtain ⟨_, _, _, _, _, hfirst, _⟩ := evaluate_trusted_iff.mp (isTrusted_iff.mp h)
    exact absurd hfirst.mem not_mem_nil
  unfold selectResolver
  rw [htrusted]
  rw [unnamedEdits_authors (by simp), unnamedEdits_authors (by simp)]
  simp [mostSenior, distinct]

/-- The two edits are an open conflict: a file with such labels does not verify, so nothing is merged. -/
theorem unnamedEdits_conflict (allowed : Bool) :
    unnamedEdits.openConflict allowed = .ok (some ⟨left.id, right.id, [left.id, right.id]⟩) := by
  have hheads : RevisionGraph.heads unnamedEdits.revisions = [left.id, right.id] := by decide +kernel
  have hapart : RevisionGraph.compare unnamedEdits.revisions left.id right.id = .ok .diverged := by
    decide +kernel
  have hunverified : (verifyStructure unnamedEdits).isOk = false := by
    cases hverify : verifyStructure unnamedEdits with
    | error e => rfl
    | ok digest =>
      have hnamed := ((verifyStructure_ok_iff.mp hverify).1.revisionOk (unnamed root) (.head _)).label
      unfold FileRevision.generatedLabelIsConsistent labelIsConsistent at hnamed
      split at hnamed <;> cases hnamed
  simp only [openConflict, hheads, hapart, planAutoMerge, hunverified]
  rfl
omit [CharTable] in
/-- **Who may decide**: not an author of either side, and at or above the label the rules point to. -/
theorem mayDecide_iff {f : TrackedFile} {left right : Digest} {label : String} {policy : FilePolicy}
    {ctx : TrustContext} : f.mayDecide left right label policy ctx = .ok true ↔
    f.authorOf left ≠ .ok label ∧ f.authorOf right ≠ .ok label
      ∧ ∃ selection, f.selectResolver left right policy ctx = .ok selection
        ∧ isAncestorOrSelf label (selection.line policy) := by
  unfold mayDecide authored
  cases hl : f.authorOf left with
  | error e => simp [selectResolver, hl]
  | ok l =>
    cases hr : f.authorOf right with
    | error e => by_cases heq : l = label <;> simp [selectResolver, hl, hr, heq]
    | ok r =>
      by_cases heq : l = label
      · simp [heq]
      · by_cases heq' : r = label
        · simp [heq']
        · cases f.selectResolver left right policy ctx with
          | error e => simp [heq, heq']
          | ok selection => cases selection <;> simp [heq, heq', ResolverSelection.line]

/-- **Whoever may decide an open conflict may author**, in every file, exactly if the policy's scope root
stands nowhere or neither its owner nor those above it are forbidden. -/
theorem mayDecide_mayAuthor_iff (policy : FilePolicy) :
    (∀ (f : TrackedFile) (allowed : Bool) (conflict : OpenConflict) (label : String) (ctx : TrustContext),
        f.openConflict allowed = .ok (some conflict) →
        f.mayDecide conflict.left conflict.right label policy ctx = .ok true → policy.mayAuthor label)
      ↔ (isWellFormed policy.scopeRoot → policy.OpenAbove) := by
  constructor
  · intro h hroot
    -- where the rules find nobody, everyone at or above the root decides
    have hmay (label : String) (habove : isAncestorOrSelf label policy.scopeRoot) :
        policy.mayAuthor label := by
      obtain ⟨hformed, -, -⟩ := isAncestorOrSelf_iff_segments.mp habove
      refine h unnamedEdits true _ label Sample.keys (unnamedEdits_conflict true)
        (mayDecide_iff.mpr ⟨?_, ?_, _, unnamedEdits_unresolved _ _, habove⟩)
      all_goals
        rintro heq
        rw [unnamedEdits_authors (by decide)] at heq
        cases heq
        cases hformed
    exact FilePolicy.openAbove_of_root hroot hmay
  · intro hopen f allowed conflict label ctx _ h
    obtain ⟨-, -, selection, hselect, habove⟩ := mayDecide_iff.mp h
    cases selection with
    | assigned reviewer rule from_ =>
      obtain ⟨-, -, hmay⟩ := selectResolver_eligible hselect
      exact (hopen (FilePolicy.mayAuthor_iff.mp hmay).1).mayAuthor habove hmay
    | unresolved => exact (hopen (isAncestorOrSelf_iff_segments.mp habove).2.1).mayAuthor_root habove

end

section

attribute [local instance] Sample.trustCrypto CharTable.ascii

/-- The holder of `M` decides between two edits of the scope `M.S` whose policy, one that `with_rules` makes,
lets nobody above the scope author. -/
theorem forbidden_supervisor_decides :
    FilePolicy.withRules "M.S" none none (some .forbidden) none true = .ok supervisorsForbidden
      ∧ verifyStructure (file [root, left, right] [] [] []) = .ok genesis
      ∧ (file [root, left, right] [] [] []).openConflict true
        = .ok (some ⟨left.id, right.id, [left.id, right.id]⟩)
      ∧ (file [root, left, right] [] [] []).mayDecide left.id right.id "M" supervisorsForbidden
        Sample.keys = .ok true
      ∧ supervisorsForbidden.mayAuthor "M" = false := by
  decide +kernel

end

end TrackedFile

end KeyQuorum
