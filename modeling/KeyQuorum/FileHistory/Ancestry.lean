/-
  **THE QUERIES OF THE REVISION GRAPH** (`RevisionGraph` in
  `file_history/revision.rs`).

  `merge_base` walks the revisions from the newest back and marks the strict
  ancestors of every common ancestor it meets.  On a list stored
  parents-first a revision is met after everything above it, so what is
  common and not yet marked is nearest: no other common ancestor is below it.
-/
import KeyQuorum.FileHistory.Verify
import Mathlib.Data.Finset.Max

namespace KeyQuorum

open List Foundation

namespace RevisionGraph

variable {revisions : List StoredRevision} {a b : Digest}

/-! ## §1. Nearest common ancestors. -/

section

variable (revisions : List StoredRevision)

/-- `p` is a parent of `d`. -/
abbrev Link : Digest → Digest → Prop :=
  Dag.Link StoredRevision.id StoredRevision.parents revisions

/-- `p` is `d` or an ancestor of it. -/
abbrev Reach : Digest → Digest → Prop :=
  Dag.Reach StoredRevision.id StoredRevision.parents revisions

/-- `m` is `a` or an ancestor of it, and `b` or an ancestor of it. -/
def Common (a b m : Digest) : Prop :=
  Reach revisions a m ∧ Reach revisions b m

/-- A common ancestor that is an ancestor of no other one. -/
def Nearest (a b m : Digest) : Prop :=
  Common revisions a b m ∧ ∀ c, Common revisions a b c → Reach revisions c m → c = m

/-- `d` is a common ancestor or an ancestor of one. -/
def Above (a b d : Digest) : Prop :=
  ∃ c, Common revisions a b c ∧ Reach revisions c d

end

variable (hpf : Dag.ParentsFirst StoredRevision.id StoredRevision.parents ∅ revisions)

include hpf

theorem nearest_iff : Nearest revisions a b m ↔ Common revisions a b m
    ∧ ¬ ∃ d, Above revisions a b d ∧ Link revisions d m := by
  refine and_congr_right fun _ => ⟨?_, ?_⟩
  · rintro hmax ⟨d, ⟨c, hc, hreach⟩, hlink⟩
    obtain rfl := hmax c hc (hreach.tail hlink)
    exact hpf.no_cycle hreach hlink
  · intro hfree c hc hreach
    cases hreach with
    | refl => rfl
    | tail hreach hlink => exact absurd ⟨_, ⟨c, hc, hreach⟩, hlink⟩ hfree

/-- **There is a nearest common ancestor** wherever there is a common one. -/
theorem exists_nearest (ha : a ∈ Dag.keys StoredRevision.id revisions) (hc : Common revisions a b c) :
    ∃ m, Nearest revisions a b m := by
  classical
  obtain ⟨rank, hdrop⟩ := hpf.exists_rank
  have hmem : ∀ m, Common revisions a b m → m ∈ (revisions.map StoredRevision.id).toFinset := by
    intro m hm
    obtain ⟨stored, hstored, rfl⟩ := hpf.reach_mem ha hm.1
    simpa using ⟨stored, hstored, rfl⟩
  -- the common ancestor of greatest rank
  obtain ⟨m, hm, hmax⟩ := ((revisions.map StoredRevision.id).toFinset.filter (Common revisions a b)).exists_max_image
    rank ⟨c, Finset.mem_filter.mpr ⟨hmem c hc, hc⟩⟩
  refine ⟨m, (nearest_iff hpf).mpr ⟨(Finset.mem_filter.mp hm).2, ?_⟩⟩
  rintro ⟨d, ⟨c, hc, hreach⟩, hlink⟩
  have hle := hmax c (Finset.mem_filter.mpr ⟨hmem c hc, hc⟩)
  have hlt := hdrop d m hlink
  have hrank := Dag.rank_le_of_reach hdrop hreach
  omega

/-! ## §2. The reverse pass. -/

omit hpf in
/-- What a round marks: the flags of the parents it can find. -/
theorem foldl_mark (revisions : List StoredRevision)
    (hmark : ∀ flags id, mark flags id = (indexOf revisions id).elim flags (flags.set · true))
    (parents : List Digest) (flags : List Bool) :
    (parents.foldl mark flags).length = flags.length
      ∧ ∀ i < flags.length, (parents.foldl mark flags).getD i false
        ↔ flags.getD i false ∨ ∃ parent ∈ parents, indexOf revisions parent = some i := by
  induction parents generalizing flags with
  | nil => simp
  | cons parent rest ih =>
    rw [foldl_cons, hmark]
    cases hindex : indexOf revisions parent with
    | none =>
      refine ⟨(ih flags).1, fun i hi => ((ih flags).2 i hi).trans ?_⟩
      simp [hindex]
    | some p =>
      refine ⟨(ih _).1.trans length_set, fun i hi => ((ih _).2 i (by simpa using hi)).trans ?_⟩
      simp only [Option.elim_some, getD_eq_getElem?_getD, getElem?_set, mem_cons]
      grind

theorem index_unique {i j : Nat} {x y : StoredRevision} (hx : revisions[i]? = some x)
    (hy : revisions[j]? = some y) (hid : x.id = y.id) : i = j := by
  have hindex := (indexOf_iff hpf).mpr ⟨x, hx, hid⟩
  rw [(indexOf_iff hpf).mpr ⟨y, hy, rfl⟩] at hindex
  exact (Option.some.inj hindex).symm

theorem index_lt {i j : Nat} {stored d : StoredRevision} (hstored : revisions[i]? = some stored)
    (hd : revisions[j]? = some d) (hparent : stored.id ∈ d.parents) : i < j := by
  obtain ⟨hj, rfl⟩ := List.getElem?_eq_some_iff.mp hd
  have hsplit := hpf
  rw [← take_append_drop j revisions, drop_eq_getElem_cons hj, Dag.parentsFirst_append] at hsplit
  have hbefore := hsplit.2.2.1 stored.id hparent
  rw [Set.empty_union] at hbefore
  obtain ⟨other, hother, hid⟩ := hbefore
  obtain ⟨k, hk⟩ := mem_iff_getElem?.mp hother
  rw [getElem?_take] at hk
  split at hk
  next hlt => rwa [← index_unique hpf hk hstored hid]
  next => cases hk

omit hpf in
theorem above_iff : Above revisions a b d ↔ Common revisions a b d
    ∨ ∃ d', Above revisions a b d' ∧ Link revisions d' d := by
  constructor
  · rintro ⟨c, hc, hreach⟩
    cases hreach with
    | refl => exact .inl hc
    | tail hreach hlink => exact .inr ⟨_, ⟨c, hc, hreach⟩, hlink⟩
  · rintro (hc | ⟨d', ⟨c, hc, hreach⟩, hlink⟩)
    · exact ⟨d, hc, .refl⟩
    · exact ⟨c, hc, hreach.tail hlink⟩

/-- What the pass has collected once the revisions from the index `k` on are done. -/
structure Passed (revisions : List StoredRevision) (a b : Digest) (k : Nat) (state : List Bool × List Digest) :
    Prop where
  length : state.1.length = revisions.length
  covered : ∀ i stored, revisions[i]? = some stored → (state.1.getD i false = true ↔
    ∃ j d, k ≤ j ∧ revisions[j]? = some d ∧ Above revisions a b d.id ∧ stored.id ∈ d.parents)
  nearest : ∀ m, m ∈ state.2 ↔ Nearest revisions a b m
    ∧ ∃ j stored, k ≤ j ∧ revisions[j]? = some stored ∧ stored.id = m
  nodup : state.2.Nodup

variable {k : Nat} {stored : StoredRevision} {state : List Bool × List Digest}

theorem Passed.isCovered (h : Passed revisions a b (k + 1) state) (hk : revisions[k]? = some stored) :
    state.1.getD k false ↔ ∃ d, Above revisions a b d ∧ Link revisions d stored.id := by
  rw [h.covered k stored hk]
  constructor
  · rintro ⟨j, d, -, hd, habove, hparent⟩
    exact ⟨d.id, habove, d, mem_of_getElem? hd, rfl, hparent⟩
  · rintro ⟨_, habove, d, hmem, rfl, hparent⟩
    obtain ⟨j, hd⟩ := mem_iff_getElem?.mp hmem
    exact ⟨j, d, index_lt hpf hk hd hparent, hd, habove, hparent⟩

theorem marked_iff (hk : revisions[k]? = some stored) :
    ((markAncestors revisions a).getD k false && (markAncestors revisions b).getD k false)
      ↔ Common revisions a b stored.id := by
  have hone (id : Digest) : (markAncestors revisions id).getD k false
      ↔ Reach revisions id stored.id := by
    have hmark := @markAncestors_iff revisions hpf id k
    rw [hk] at hmark
    rw [getD_eq_getElem?_getD]
    grind
  rw [Bool.and_eq_true, hone, hone]
  rfl

/-- **One round** of the pass. -/
theorem Passed.step (h : Passed revisions a b (k + 1) state) (hk : revisions[k]? = some stored) :
    Passed revisions a b k
      (mergeBaseStep revisions (markAncestors revisions a) (markAncestors revisions b) state (stored, k)) := by
  have hcommon := marked_iff (a := a) (b := b) hpf hk
  have hcovered := h.isCovered hpf hk
  have habove : ((markAncestors revisions a).getD k false && (markAncestors revisions b).getD k false
      || state.1.getD k false) ↔ Above revisions a b stored.id := by
    rw [Bool.or_eq_true, hcommon, hcovered, above_iff]
  have hnear : ((markAncestors revisions a).getD k false && (markAncestors revisions b).getD k false
      && !state.1.getD k false) ↔ Nearest revisions a b stored.id := by
    rw [Bool.and_eq_true, hcommon, Bool.not_eq_true', ← Bool.not_eq_true, hcovered, nearest_iff hpf]
  -- an index from `k` on is `k` or one the pass has seen
  have hsplit : ∀ P : Nat → StoredRevision → Prop, (∃ j d, k ≤ j ∧ revisions[j]? = some d ∧ P j d)
      ↔ (∃ j d, k + 1 ≤ j ∧ revisions[j]? = some d ∧ P j d) ∨ P k stored := by
    intro P
    constructor
    · rintro ⟨j, d, hj, hd, hP⟩
      rcases Nat.eq_or_lt_of_le hj with rfl | hlt
      · cases hd.symm.trans hk
        exact .inr hP
      · exact .inl ⟨j, d, hlt, hd, hP⟩
    · rintro (⟨j, d, hj, hd, hP⟩ | hP)
      · exact ⟨j, d, Nat.le_of_succ_le hj, hd, hP⟩
      · exact ⟨k, stored, Nat.le_refl k, hk, hP⟩
  unfold mergeBaseStep
  refine ⟨?_, fun i other hi => ?_, fun m => ?_, ?_⟩
  all_goals dsimp only
  · split
    next =>
      refine (foldl_mark revisions (fun flags id => ?_) stored.parents state.1).1.trans h.length
      cases indexOf revisions id <;> rfl
    next => exact h.length
  · have hlt : i < state.1.length := h.length ▸ (List.getElem?_eq_some_iff.mp hi).1
    rw [hsplit, ← h.covered i other hi]
    split
    next hmarked =>
      refine ((foldl_mark revisions (fun flags id => ?_) stored.parents state.1).2 i hlt).trans (or_congr_right ?_)
      · cases indexOf revisions id <;> rfl
      · simp only [indexOf_iff hpf, hi, Option.some.injEq, exists_eq_left', exists_eq_right', habove.mp hmarked,
          true_and]
    next hmarked =>
      rw [habove] at hmarked
      simp [hmarked]
  · rw [hsplit, and_or_left, ← h.nearest m]
    split
    next hnearest =>
      rw [mem_append, mem_singleton]
      exact or_congr_right ⟨fun hm => ⟨hm ▸ hnear.mp hnearest, hm.symm⟩, fun hm => hm.2.symm⟩
    next hnearest =>
      refine ⟨.inl, fun hm => hm.resolve_right ?_⟩
      rintro ⟨hm, rfl⟩
      exact hnearest (hnear.mpr hm)
  · split
    next =>
      refine nodup_append.mpr ⟨h.nodup, nodup_singleton _, ?_⟩
      intro m hm m' hm' heq
      obtain ⟨-, j, other, hj, hother, hid⟩ := (h.nearest m).mp hm
      have := index_unique hpf hother hk (hid.trans (heq.trans (mem_singleton.mp hm')))
      omega
    next => exact h.nodup

/-- **The whole pass** collects the nearest common ancestors, each once. -/
theorem mergeBase_pass :
    Passed revisions a b 0 (revisions.zipIdx.reverse.foldl
      (mergeBaseStep revisions (markAncestors revisions a) (markAncestors revisions b))
      (List.replicate revisions.length false, [])) := by
  have hrun : ∀ left k, k + left = revisions.length → Passed revisions a b k
      ((revisions.zipIdx.drop k).reverse.foldl
        (mergeBaseStep revisions (markAncestors revisions a) (markAncestors revisions b))
        (List.replicate revisions.length false, [])) := by
    intro left
    induction left with
    | zero =>
      rintro _ rfl
      have hnone : ∀ j d, revisions.length ≤ j → revisions[j]? ≠ some d :=
        fun j d hj hd => absurd (List.getElem?_eq_some_iff.mp hd).1 (Nat.not_lt.mpr hj)
      rw [drop_of_length_le (by simp), reverse_nil, foldl_nil]
      refine ⟨length_replicate, fun i stored hi => ⟨fun hset => ?_, ?_⟩, fun m => ⟨nofun, ?_⟩, nodup_nil⟩
      · rw [getD_eq_getElem?_getD, getElem?_replicate] at hset
        split at hset <;> cases hset
      · rintro ⟨j, d, hj, hd, -⟩
        exact absurd hd (hnone j d hj)
      · rintro ⟨-, j, d, hj, hd, -⟩
        exact absurd hd (hnone j d hj)
    | succ left ih =>
      intro k hk
      have hlt : k < revisions.length := by omega
      have hstep := (ih (k + 1) (by omega)).step hpf (getElem?_eq_getElem hlt)
      rw [drop_eq_getElem_cons (by simpa using hlt), reverse_cons, foldl_append]
      simpa using hstep
  simpa using hrun revisions.length 0 (Nat.zero_add _)

theorem mergeBase_cases (ha : a ∈ Dag.keys StoredRevision.id revisions) :
    (∀ m, mergeBase revisions a b = .unique m
        ↔ Nearest revisions a b m ∧ ∀ m', Nearest revisions a b m' → m' = m)
      ∧ (mergeBase revisions a b = .ambiguous
        ↔ ∃ m m', Nearest revisions a b m ∧ Nearest revisions a b m' ∧ m ≠ m')
      ∧ (mergeBase revisions a b = .none → ∀ m, ¬ Nearest revisions a b m) := by
  have hpass := mergeBase_pass (a := a) (b := b) hpf
  have hnodup := hpass.nodup
  have hmem : ∀ m, m ∈ _ ↔ Nearest revisions a b m := fun m =>
    (hpass.nearest m).trans (and_iff_left_of_imp fun hm => by
      obtain ⟨stored, hstored, hid⟩ := hpf.reach_mem ha hm.1.1
      obtain ⟨j, hj⟩ := mem_iff_getElem?.mp hstored
      exact ⟨j, stored, Nat.zero_le j, hj, hid⟩)
  simp only [← hmem]
  unfold mergeBase
  dsimp only
  generalize (revisions.zipIdx.reverse.foldl (mergeBaseStep revisions (markAncestors revisions a)
    (markAncestors revisions b)) (List.replicate revisions.length false, [])).2 = nearest at hnodup ⊢
  match nearest with
  | [] => simp
  | [only] =>
    simp only [MergeBase.unique.injEq, mem_singleton, reduceCtorEq]
    grind
  | x :: y :: rest =>
    simp only [reduceCtorEq, mem_cons]
    grind

/-! ## §3. The queries. -/

end RevisionGraph

/-- A relation read from the other side. -/
def HeadRelation.flip : HeadRelation → HeadRelation
  | .equal => .equal
  | .incomingAhead => .incomingBehind
  | .incomingBehind => .incomingAhead
  | .diverged => .diverged

namespace RevisionGraph

variable {revisions : List StoredRevision} {a b : Digest}
  (hpf : Dag.ParentsFirst StoredRevision.id StoredRevision.parents ∅ revisions)

include hpf

theorem reach_antisymm (hab : Reach revisions a b) (hba : Reach revisions b a) : a = b := by
  cases hab with
  | refl => rfl
  | tail hreach hlink => exact absurd hlink (hpf.no_cycle (hba.trans hreach))

/-- **The relation of two heads is that of the ancestor order.** -/
theorem compare_reach (ha : a ∈ Dag.keys StoredRevision.id revisions)
    (hb : b ∈ Dag.keys StoredRevision.id revisions) :
    ∃ relation, compare revisions a b = .ok relation ∧ compare revisions b a = .ok relation.flip
      ∧ (relation = .equal ↔ a = b)
      ∧ (relation = .incomingAhead ↔ a ≠ b ∧ Reach revisions b a)
      ∧ (relation = .incomingBehind ↔ a ≠ b ∧ Reach revisions a b)
      ∧ (relation = .diverged ↔ ¬ Reach revisions a b ∧ ¬ Reach revisions b a) := by
  have hab := @isAncestorOrSelf_iff revisions hpf a b
  have hba := @isAncestorOrSelf_iff revisions hpf b a
  have hget := Option.isNone_eq_false_iff.mpr (get_isSome.mpr ha)
  have hget' := Option.isNone_eq_false_iff.mpr (get_isSome.mpr hb)
  have hanti := reach_antisymm hpf (a := a) (b := b)
  have hrefl : a = b → Reach revisions a b := fun h => h ▸ .refl
  unfold compare
  rw [hget, hget']
  refine ⟨_, rfl, ?_⟩
  grind [HeadRelation.flip]

/-- **The queries of a valid graph.** -/
theorem queries_spec (hroot : OneRoot revisions) (ha : a ∈ Dag.keys StoredRevision.id revisions)
    (hb : b ∈ Dag.keys StoredRevision.id revisions) :
    (∀ m, mergeBase revisions a b = .unique m
        ↔ Nearest revisions a b m ∧ ∀ m', Nearest revisions a b m' → m' = m)
      ∧ (mergeBase revisions a b = .ambiguous
        ↔ ∃ m m', Nearest revisions a b m ∧ Nearest revisions a b m' ∧ m ≠ m')
      ∧ mergeBase revisions a b ≠ .none
      ∧ (isAncestorOrSelf revisions a b = true ↔ a ∈ ancestorSet revisions b)
      ∧ (∃ relation, compare revisions a b = .ok relation ∧ compare revisions b a = .ok relation.flip
        ∧ (relation = .equal ↔ a = b)
        ∧ (relation = .incomingAhead ↔ a ≠ b ∧ Reach revisions b a)
        ∧ (relation = .incomingBehind ↔ a ≠ b ∧ Reach revisions a b)
        ∧ (relation = .diverged ↔ ¬ Reach revisions a b ∧ ¬ Reach revisions b a))
      ∧ ∃ head ∈ heads revisions, Reach revisions head a := by
  obtain ⟨hunique, hambiguous, hnone⟩ := mergeBase_cases (b := b) hpf ha
  refine ⟨hunique, hambiguous, fun h => ?_,
    (isAncestorOrSelf_iff hpf).trans (mem_ancestorSet hpf).symm, compare_reach hpf ha hb, ?_⟩
  · cases revisions with
    | nil =>
      obtain ⟨_, hmem, -⟩ := ha
      cases hmem
    | cons root rest =>
      obtain ⟨m, hm⟩ := exists_nearest hpf ha ⟨hpf.reach_root hroot.2 ha, hpf.reach_root hroot.2 hb⟩
      exact hnone h m hm
  · obtain ⟨head, hhead, hreach⟩ := hpf.exists_head_above ha
    exact ⟨head, mem_heads.mpr hhead, hreach⟩

end RevisionGraph

attribute [local instance] Sample.crypto CharTable.ascii
open Sample

theorem RevisionGraph.queries_spec_sample :
    mergeBase full.revisions left.id right.id = .unique root.id
      ∧ Nearest full.revisions left.id right.id root.id := by
  have hf : WellFormed full :=
    verifyStructure_isOk.mp ⟨renamed.eventHash, by decide +kernel⟩
  have hbase : mergeBase full.revisions left.id right.id = .unique root.id := by
    decide +kernel
  refine ⟨hbase, (((queries_spec hf.parentsFirst hf.oneRoot ?_ ?_).1 _).mp hbase).1⟩
  · exact ⟨left, by decide +kernel, rfl⟩
  · exact ⟨right, by decide +kernel, rfl⟩

end KeyQuorum
