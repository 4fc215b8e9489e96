/-
  **GRAPHS STORED PARENTS-FIRST.**

  A list of nodes, each with a key and the keys of its parents, is stored
  parents-first when every parent comes before its child and no key comes
  twice.  Such a list is a finite DAG, and the order is all the evidence a
  reader needs.
-/
import KeyQuorum.Foundation.Bytes

namespace Foundation.Dag

open List

variable {α ι : Type} (key : α → ι) (links : α → List ι)

/-! ## §1. The storage order. -/

def keys (l : List α) : Set ι := {k | ∃ a ∈ l, key a = k}

/-- Every node's parents are in `S` or before it, and its key is in neither. -/
def ParentsFirst : Set ι → List α → Prop
  | _, [] => True
  | S, a :: as => key a ∉ S ∧ (∀ p ∈ links a, p ∈ S) ∧ ParentsFirst (insert (key a) S) as

variable {key links} {l m : List α} {k d p : ι} {a : α} {S : Set ι}

theorem mem_keys : k ∈ keys key l ↔ ∃ a ∈ l, key a = k := Iff.rfl

theorem mem_keys_of_mem (h : a ∈ l) : key a ∈ keys key l := ⟨a, h, rfl⟩

@[simp] theorem keys_nil : keys key ([] : List α) = ∅ := by
  ext k
  simp [keys]

theorem keys_cons (a : α) (l : List α) : keys key (a :: l) = insert (key a) (keys key l) := by
  ext k
  simp [keys, eq_comm]

theorem keys_append (l m : List α) : keys key (l ++ m) = keys key l ∪ keys key m := by
  ext k
  constructor
  · rintro ⟨a, ha, rfl⟩
    exact (mem_append.mp ha).imp mem_keys_of_mem mem_keys_of_mem
  · rintro (⟨a, ha, rfl⟩ | ⟨a, ha, rfl⟩)
    · exact ⟨a, mem_append_left _ ha, rfl⟩
    · exact ⟨a, mem_append_right _ ha, rfl⟩

theorem parentsFirst_append :
    ParentsFirst key links S (l ++ m) ↔
      ParentsFirst key links S l ∧ ParentsFirst key links (S ∪ keys key l) m := by
  induction l generalizing S with
  | nil => simp [ParentsFirst]
  | cons a l ih =>
    have hset : insert (key a) S ∪ keys key l = S ∪ keys key (a :: l) := by
      rw [keys_cons, Set.insert_union, Set.union_insert]
    show (key a ∉ S ∧ _ ∧ ParentsFirst key links (insert (key a) S) (l ++ m)) ↔ _
    rw [ih, hset]
    exact ⟨fun h => ⟨⟨h.1, h.2.1, h.2.2.1⟩, h.2.2.2⟩, fun h => ⟨h.1.1, h.1.2.1, h.1.2.2, h.2⟩⟩

theorem parentsFirst_concat (hl : ParentsFirst key links ∅ l)
    (hnew : key a ∉ keys key l) (hlinks : ∀ p ∈ links a, p ∈ keys key l) :
    ParentsFirst key links ∅ (l ++ [a]) := by
  rw [parentsFirst_append, Set.empty_union]
  exact ⟨hl, hnew, hlinks, trivial⟩

section

variable (h : ParentsFirst key links S l)

include h

theorem ParentsFirst.disjoint : ∀ a ∈ l, key a ∉ S := by
  induction l generalizing S with
  | nil => intro a ha; cases ha
  | cons b l ih =>
    intro a ha
    rcases mem_cons.mp ha with rfl | ha
    · exact h.1
    · exact fun hS => ih h.2.2 a ha (Set.mem_insert_of_mem _ hS)

theorem ParentsFirst.nodup_keys : (l.map key).Nodup := by
  induction l generalizing S with
  | nil => exact nodup_nil
  | cons a l ih =>
    refine nodup_cons.mpr ⟨fun hmem => ?_, ih h.2.2⟩
    obtain ⟨b, hb, hk⟩ := mem_map.mp hmem
    exact h.2.2.disjoint b hb (hk ▸ Set.mem_insert _ S)

theorem ParentsFirst.key_inj (ha : a ∈ l) (hb : b ∈ l) (hk : key a = key b) : a = b :=
  inj_on_of_nodup_map h.nodup_keys ha hb hk

end

/-! ## §2. Links and ranks. -/

/-- `p` is a parent of the stored node `d`. -/
def Link (key : α → ι) (links : α → List ι) (l : List α) (d p : ι) : Prop :=
  ∃ a ∈ l, key a = d ∧ p ∈ links a

/-- `p` is `d` or an ancestor of it. -/
def Reach (key : α → ι) (links : α → List ι) (l : List α) : ι → ι → Prop :=
  Relation.ReflTransGen (Link key links l)

theorem ParentsFirst.link_mem (h : ParentsFirst key links S l)
    (hl : Link key links l d p) : p ∈ S ∪ keys key l := by
  induction l generalizing S with
  | nil => obtain ⟨a, ha, -⟩ := hl; cases ha
  | cons b l ih =>
    obtain ⟨a, ha, rfl, hp⟩ := hl
    rcases mem_cons.mp ha with rfl | ha
    · exact .inl (h.2.1 p hp)
    · have hmem := ih h.2.2 ⟨a, ha, rfl, hp⟩
      rw [keys_cons, Set.union_insert, ← Set.insert_union]
      exact hmem

theorem ParentsFirst.reach_mem (h : ParentsFirst key links ∅ l)
    (hd : d ∈ keys key l) (hr : Reach key links l d p) : p ∈ keys key l := by
  induction hr with
  | refl => exact hd
  | tail _ hl _ =>
    have hmem := h.link_mem hl
    rwa [Set.empty_union] at hmem

/-- **A rank drops along every link**, so the graph has no cycle. -/
theorem ParentsFirst.exists_rank (h : ParentsFirst key links ∅ l) :
    ∃ rank : ι → Nat, ∀ d p, Link key links l d p → rank p < rank d := by
  classical
  -- Strengthened: keys already in `S` have rank 0, stored keys a positive one.
  have key_lemma : ∀ (l : List α) (S : Set ι), ParentsFirst key links S l →
      ∃ rank : ι → Nat, (∀ s ∈ S, rank s = 0) ∧ (∀ a ∈ l, 0 < rank (key a)) ∧
        ∀ d p, Link key links l d p → rank p < rank d := by
    intro l
    induction l with
    | nil =>
      intro S _
      refine ⟨fun _ => 0, fun _ _ => rfl, nofun, ?_⟩
      rintro d p ⟨a, ha, -⟩
      cases ha
    | cons b l ih =>
      intro S hS
      obtain ⟨rank, hzero, hpos, hdrop⟩ := ih _ hS.2.2
      have hbelow : ∀ a ∈ l, key a ∉ S := fun a ha hs =>
        Nat.lt_irrefl 0 (hzero _ (Set.mem_insert_of_mem _ hs) ▸ hpos a ha)
      -- The first node must rise above `S` and stay below the rest: shift the rank by one.
      refine ⟨fun k => if k ∈ S then 0 else rank k + 1, fun s hs => if_pos hs, ?_, ?_⟩
      · intro a ha
        rcases mem_cons.mp ha with rfl | ha
        · simp [hS.1]
        · simp [hbelow a ha]
      · rintro d p ⟨a, ha, rfl, hp⟩
        rcases mem_cons.mp ha with rfl | ha
        · simp [hS.1, hS.2.1 p hp]
        · have hlt := hdrop _ p ⟨a, ha, rfl, hp⟩
          simp only [hbelow a ha, if_false]
          split <;> omega
  obtain ⟨rank, -, -, hdrop⟩ := key_lemma l ∅ h
  exact ⟨rank, hdrop⟩

theorem rank_le_of_reach {rank : ι → Nat} (hdrop : ∀ d p, Link key links l d p → rank p < rank d)
    (hr : Reach key links l d p) : rank p ≤ rank d := by
  induction hr with
  | refl => exact Nat.le_refl _
  | tail _ hl ih => exact Nat.le_trans (Nat.le_of_lt (hdrop _ _ hl)) ih

theorem ParentsFirst.no_cycle (h : ParentsFirst key links ∅ l)
    (hr : Reach key links l d p) : ¬ Link key links l p d := by
  obtain ⟨rank, hdrop⟩ := h.exists_rank
  intro hl
  have hle := rank_le_of_reach hdrop hr
  have hlt := hdrop _ _ hl
  omega

/-! ## §3. Heads. -/

def IsHead (key : α → ι) (links : α → List ι) (l : List α) (k : ι) : Prop :=
  k ∈ keys key l ∧ ∀ a ∈ l, k ∉ links a

/-- **Above every node there is a head.** -/
theorem ParentsFirst.exists_head_above (h : ParentsFirst key links ∅ l)
    (hk : k ∈ keys key l) : ∃ head, IsHead key links l head ∧ Reach key links l head k := by
  obtain ⟨rank, hdrop⟩ := h.exists_rank
  -- Induction on how many nodes still lie above the current one.
  generalize hn : (l.filter (fun a => decide (rank k < rank (key a)))).length = n
  induction n using Nat.strong_induction_on generalizing k with
  | _ n ih =>
    by_cases hhead : ∀ a ∈ l, k ∉ links a
    · exact ⟨k, ⟨hk, hhead⟩, .refl⟩
    · push Not at hhead
      obtain ⟨a, ha, hka⟩ := hhead
      have hlink : Link key links l (key a) k := ⟨a, ha, rfl, hka⟩
      have hlt : rank k < rank (key a) := hdrop _ _ hlink
      have hfewer : (l.filter (fun b => decide (rank (key a) < rank (key b)))).length < n := by
        have hsub : l.filter (fun b => decide (rank (key a) < rank (key b)))
            = (l.filter (fun b => decide (rank k < rank (key b)))).filter
                (fun b => decide (rank (key a) < rank (key b))) := by
          rw [filter_filter]
          refine filter_congr (fun b _ => ?_)
          by_cases hb : rank (key a) < rank (key b)
          · simp [hb, Nat.lt_trans hlt hb]
          · simp [hb]
        rw [hsub, ← hn]
        refine length_filter_lt_length_iff_exists.mpr ⟨a, ?_, by simp⟩
        exact mem_filter.mpr ⟨ha, by simpa using hlt⟩
      obtain ⟨head, hh, hr⟩ := ih _ hfewer (mem_keys_of_mem ha) rfl
      exact ⟨head, hh, hr.tail hlink⟩

/-! ## §4. Union and restriction. -/

theorem ParentsFirst.union (hl : ParentsFirst key links ∅ l) (hm : ParentsFirst key links ∅ m)
    (fresh : α → Bool) (hfresh : ∀ a, fresh a ↔ key a ∉ keys key l) :
    ParentsFirst key links ∅ (l ++ m.filter fresh) := by
  -- Generalised over the part `S` of `m` already passed: it is in `l` or was appended.
  have step : ∀ (m : List α) (S : Set ι), ParentsFirst key links S m →
      ParentsFirst key links (keys key l ∪ S) (m.filter fresh) := by
    intro m
    induction m with
    | nil => intro S _; trivial
    | cons a m ih =>
      intro S hS
      have hrest := ih _ hS.2.2
      rw [Set.union_insert] at hrest
      by_cases hf : fresh a
      · rw [filter_cons_of_pos hf]
        refine ⟨?_, fun p hp => .inr (hS.2.1 p hp), hrest⟩
        rintro (hin | hin)
        · exact (hfresh a).mp hf hin
        · exact hS.1 hin
      · rw [filter_cons_of_neg hf]
        have hin : key a ∈ keys key l := by
          by_contra hout
          exact hf ((hfresh a).mpr hout)
        rwa [Set.insert_eq_of_mem (Set.mem_union_left S hin)] at hrest
  rw [parentsFirst_append]
  refine ⟨hl, ?_⟩
  have := step m ∅ hm
  rwa [Set.union_empty, ← Set.empty_union (keys key l)] at this

theorem ParentsFirst.filter (hl : ParentsFirst key links ∅ l) (keep : α → Bool) (K : Set ι)
    (hkeep : ∀ a ∈ l, keep a ↔ key a ∈ K) (hclosed : ∀ a ∈ l, key a ∈ K → ∀ p ∈ links a, p ∈ K) :
    ParentsFirst key links ∅ (l.filter keep) := by
  -- Generalised over the keys `S` already passed, of which only those in `K` were kept.
  have step : ∀ (l : List α) (S : Set ι), ParentsFirst key links S l →
      (∀ a ∈ l, keep a ↔ key a ∈ K) →
      (∀ a ∈ l, key a ∈ K → ∀ p ∈ links a, p ∈ K) →
      ParentsFirst key links (S ∩ K) (l.filter keep) := by
    intro l
    induction l with
    | nil => intro S _ _ _; trivial
    | cons a l ih =>
      intro S hS hk hc
      have hrest := ih _ hS.2.2 (fun b hb => hk b (.tail _ hb)) (fun b hb => hc b (.tail _ hb))
      by_cases hf : keep a
      · have hin : key a ∈ K := (hk a (.head _)).mp hf
        rw [filter_cons_of_pos hf]
        refine ⟨fun h => hS.1 h.1, ?_, ?_⟩
        · exact fun p hp => ⟨hS.2.1 p hp, hc a (.head _) hin p hp⟩
        · rwa [Set.insert_inter_of_mem hin] at hrest
      · have hout : key a ∉ K := fun hin => hf ((hk a (.head _)).mpr hin)
        rw [filter_cons_of_neg hf]
        rwa [Set.insert_inter_of_notMem hout] at hrest
  have := step l ∅ hl hkeep hclosed
  rwa [Set.empty_inter] at this

theorem mem_of_reach {K : Set ι} (hclosed : ∀ d p, Link key links l d p → d ∈ K → p ∈ K) (hd : d ∈ K)
    (hr : Reach key links l d p) : p ∈ K := by
  induction hr with
  | refl => exact hd
  | tail _ hl ih => exact hclosed _ _ hl ih

/-- **A head on the other side.**  If `K` is closed under parents and misses a stored key, some
head is outside `K`. -/
theorem ParentsFirst.head_outside (h : ParentsFirst key links ∅ l) {K : Set ι}
    (hclosed : ∀ d p, Link key links l d p → d ∈ K → p ∈ K)
    (hk : k ∈ keys key l) (hout : k ∉ K) : ∃ head, IsHead key links l head ∧ head ∉ K := by
  obtain ⟨head, hhead, hr⟩ := h.exists_head_above hk
  exact ⟨head, hhead, fun hin => hout (mem_of_reach hclosed hin hr)⟩

/-- **One root reaches all**: if only the first node has no parents, it is an ancestor of every
node. -/
theorem ParentsFirst.reach_root (h : ParentsFirst key links ∅ (root :: l))
    (honly : ∀ a ∈ l, links a ≠ []) (hk : k ∈ keys key (root :: l)) :
    Reach key links (root :: l) k (key root) := by
  obtain ⟨rank, hdrop⟩ := h.exists_rank
  -- Induction on the rank: any node but the root has a parent, and its rank is smaller.
  generalize hn : rank k = n
  induction n using Nat.strong_induction_on generalizing k with
  | _ n ih =>
    obtain ⟨a, ha, rfl⟩ := hk
    rcases mem_cons.mp ha with rfl | ha'
    · exact .refl
    · obtain ⟨p, hp⟩ := exists_mem_of_ne_nil _ (honly a ha')
      have hlink : Link key links (root :: l) (key a) p := ⟨a, ha, rfl, hp⟩
      have hmem := h.link_mem hlink
      rw [Set.empty_union] at hmem
      have hlt := hdrop _ _ hlink
      exact .head hlink (ih (rank p) (by omega) hmem rfl)

end Foundation.Dag
