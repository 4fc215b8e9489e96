/-
  **SELECTIONS OF A GIVEN SIZE, IN LEXICOGRAPHIC ORDER.**

  `choose k l` lists the sublists of `l` of length `k`.  Over positions,
  `next` computes the successor of a selection in place, as an odometer
  does, and the two agree.
-/
import Mathlib.Algebra.Order.BigOperators.Group.Finset
import Mathlib.Data.List.Sort
import Mathlib.Data.List.Sublists

namespace Foundation.Combinations

open List

variable {α : Type}

/-! ## §1. Selections. -/

/-- The sublists of length `k`, those with the earlier first element first. -/
def choose : Nat → List α → List (List α)
  | 0, _ => [[]]
  | _ + 1, [] => []
  | k + 1, x :: rest => (choose k rest).map (x :: ·) ++ choose (k + 1) rest

@[simp] theorem choose_zero (l : List α) : choose 0 l = [[]] := by
  cases l <;> rfl

@[simp] theorem choose_succ_nil (k : Nat) : choose (k + 1) ([] : List α) = [] := rfl

theorem choose_succ_cons (k : Nat) (x : α) (rest : List α) :
    choose (k + 1) (x :: rest) = (choose k rest).map (x :: ·) ++ choose (k + 1) rest := rfl

variable {k : Nat} {positions : List Nat} {l : List α}

theorem choose_perm (k : Nat) (l : List α) : (choose k l).Perm (sublistsLen k l) := by
  induction l generalizing k with
  | nil => cases k <;> simp
  | cons x rest ih =>
    cases k with
    | zero => simp
    | succ k =>
      rw [choose_succ_cons, sublistsLen_succ_cons]
      exact (((ih k).map _).append (ih (k + 1))).trans perm_append_comm

theorem mem_choose : c ∈ choose k l ↔ c.Sublist l ∧ c.length = k :=
  (choose_perm k l).mem_iff.trans mem_sublistsLen

theorem length_choose (k : Nat) (l : List α) : (choose k l).length = l.length.choose k :=
  (choose_perm k l).length_eq.trans (length_sublistsLen k l)

/-! ## §2. The successor of a selection of positions. -/

/-- The next selection of positions below `n`: the rightmost position that can still move moves
by one, and those after it follow it closely. -/
def next (n : Nat) : List Nat → Option (List Nat)
  | [] => none
  | x :: rest =>
    match next n rest with
    | some rest => some (x :: rest)
    | none =>
      if x + 1 < n - rest.length then some (List.range' (x + 1) (rest.length + 1)) else none

theorem head?_choose (k lo m : Nat) (h : k ≤ m) :
    (choose k (List.range' lo m)).head? = some (List.range' lo k) := by
  induction m generalizing k lo with
  | zero =>
    obtain rfl : k = 0 := by omega
    rfl
  | succ m ih =>
    cases k with
    | zero => simp
    | succ k =>
      have hhead := ih k (lo + 1) (by omega)
      rw [range'_succ, choose_succ_cons, head?_append, head?_map, hhead]
      rfl

theorem head?_choose_range (h : k ≤ n) : (choose k (List.range n)).head? = some (List.range k) := by
  rw [range_eq_range', range_eq_range']
  exact head?_choose k 0 n h

theorem pairwise_choose (k lo m : Nat) : (choose k (List.range' lo m)).Pairwise (· < ·) := by
  induction m generalizing k lo with
  | zero => cases k <;> simp
  | succ m ih =>
    cases k with
    | zero => simp
    | succ k =>
      rw [range'_succ, choose_succ_cons, pairwise_append, pairwise_map]
      refine ⟨(ih k (lo + 1)).imp fun h => cons_lt_cons_self.mpr h, ih (k + 1) (lo + 1), ?_⟩
      intro with_ hwith without hwithout
      obtain ⟨rest, -, rfl⟩ := mem_map.mp hwith
      obtain ⟨hsub, hlen⟩ := mem_choose.mp hwithout
      cases without with
      | nil => cases hlen
      | cons x rest' =>
        have hx := mem_range'_1.mp (hsub.subset (.head _))
        exact cons_lt_cons_iff.mpr (.inl (by omega))

theorem choose_eq_nil (h : m < k) : choose k (List.range' lo m) = [] := by
  rw [← length_eq_zero_iff, length_choose, length_range']
  exact Nat.choose_eq_zero_of_lt h

/-- **`next` steps through the selections.** -/
theorem chain_choose (k lo m : Nat) :
    (choose k (List.range' lo m)).IsChain (fun a b => next (lo + m) a = some b)
      ∧ ∀ last ∈ (choose k (List.range' lo m)).getLast?, next (lo + m) last = none := by
  induction m generalizing k lo with
  | zero =>
    cases k with
    | zero => exact ⟨.singleton _, by simp [next]⟩
    | succ k => exact ⟨.nil, by simp⟩
  | succ m ih =>
    cases k with
    | zero =>
      exact ⟨.singleton _, by simp [next]⟩
    | succ k =>
      have hn : lo + (m + 1) = lo + 1 + m := by omega
      rw [range'_succ, choose_succ_cons, hn]
      obtain ⟨hwith, hwithLast⟩ := ih k (lo + 1)
      obtain ⟨hwithout, hwithoutLast⟩ := ih (k + 1) (lo + 1)
      -- the last selection that starts with `lo` is followed by the first one that does not
      have hturn : ∀ last ∈ (choose k (List.range' (lo + 1) m)).getLast?,
          next (lo + 1 + m) (lo :: last) = (choose (k + 1) (List.range' (lo + 1) m)).head? := by
        intro last hlast
        have hlen := (mem_choose.mp (mem_of_getLast? hlast)).2
        unfold next
        rw [hwithLast last hlast]
        by_cases hroom : k < m
        · rw [if_pos (by omega), hlen, head?_choose (k + 1) (lo + 1) m hroom]
        · rw [if_neg (by omega), choose_eq_nil (by omega)]
          rfl
      constructor
      · rw [isChain_append]
        refine ⟨?_, hwithout, ?_⟩
        · rw [isChain_map]
          refine hwith.imp fun a b hab => ?_
          unfold next
          rw [hab]
        · intro x hx y hy
          rw [getLast?_map] at hx
          obtain ⟨last, hlast, rfl⟩ := Option.map_eq_some_iff.mp hx
          rw [hturn last hlast]
          exact hy
      · intro last hlast
        cases hrest : (choose (k + 1) (List.range' (lo + 1) m)).getLast? with
        | some other =>
          rw [getLast?_append, hrest] at hlast
          cases hlast
          exact hwithoutLast _ hrest
        | none =>
          have hnil := getLast?_eq_none_iff.mp hrest
          rw [hnil, append_nil, getLast?_map] at hlast
          obtain ⟨a, ha, rfl⟩ := Option.map_eq_some_iff.mp hlast
          rw [hturn a ha, hnil]
          rfl

theorem chain_choose_range (k n : Nat) :
    (choose k (List.range n)).IsChain (fun a b => next n a = some b)
      ∧ ∀ last ∈ (choose k (List.range n)).getLast?, next n last = none := by
  have h := chain_choose k 0 n
  rwa [← range_eq_range', Nat.zero_add] at h

/-! ## §3. Picking positions out of a list. -/

def pick (l : List α) (positions : List Nat) : List α := positions.filterMap fun i => l[i]?

theorem pick_cons (h : l[i]? = some x) (positions : List Nat) :
    pick l (i :: positions) = x :: pick l positions := by
  unfold pick
  rw [filterMap_cons_some h]

/-- **Selecting positions is selecting entries.** -/
theorem choose_pick (k : Nat) (l : List α) :
    (choose k (List.range l.length)).map (pick l) = choose k l := by
  have hdrop : ∀ (m lo k : Nat), lo + m = l.length →
      (choose k (List.range' lo m)).map (pick l) = choose k (l.drop lo) := by
    intro m
    induction m with
    | zero =>
      intro lo k hlo
      rw [drop_eq_nil_of_le (by omega)]
      cases k <;> rfl
    | succ m ih =>
      intro lo k hlo
      have hlt : lo < l.length := by omega
      rw [drop_eq_getElem_cons hlt]
      cases k with
      | zero => simp [pick]
      | succ k =>
        rw [range'_succ, choose_succ_cons, choose_succ_cons, map_append,
          ih (lo + 1) (k + 1) (by omega), ← ih (lo + 1) k (by omega), map_map,
          map_map]
        refine congrArg (· ++ _) (map_congr_left fun positions _ => ?_)
        exact pick_cons (getElem?_eq_getElem hlt) positions
  rw [range_eq_range', hdrop l.length 0 k (by omega), drop_zero]

theorem mem_choose_iff_pick :
    c ∈ choose k l ↔ ∃ positions ∈ choose k (List.range l.length), pick l positions = c := by
  rw [← choose_pick, mem_map]

theorem mem_choose_range : positions ∈ choose k (List.range n)
    ↔ positions.Pairwise (· < ·) ∧ (∀ i ∈ positions, i < n) ∧ positions.length = k := by
  rw [mem_choose, ← and_assoc]
  refine and_congr_left fun _ => ⟨fun hsub => ?_, fun ⟨hinc, hlt⟩ => ?_⟩
  · exact ⟨pairwise_lt_range.sublist hsub, fun i hi => mem_range.mp (hsub.subset hi)⟩
  · exact sublist_of_subperm_of_sortedLE (subperm_of_subset hinc.sortedLT.nodup
      fun i hi => mem_range.mpr (hlt i hi)) hinc.sortedLT.sortedLE pairwise_lt_range.sortedLT.sortedLE

def swapRemove (l : List α) (i : Nat) : Option (α × List α) :=
  match l[i]?, l.getLast? with
  | some x, some last => some (x, (l.set i last).dropLast)
  | _, _ => none

def takeOut (l : List α) : List Nat → List (Nat × α)
  | [] => []
  | i :: rest =>
    match swapRemove l i with
    | some (x, l) => (i, x) :: takeOut l rest
    | none => []

theorem swapRemove_spec (h : i < l.length) :
    ∃ x rest, swapRemove l i = some (x, rest) ∧ l[i]? = some x ∧ ∀ j < i, rest[j]? = l[j]? := by
  obtain ⟨x, hx⟩ : ∃ x, l[i]? = some x := ⟨_, getElem?_eq_getElem h⟩
  obtain ⟨last, hlast⟩ : ∃ last, l.getLast? = some last := by
    cases l with
    | nil => cases h
    | cons first rest => exact ⟨_, getLast?_eq_some_getLast (by simp)⟩
  refine ⟨x, (l.set i last).dropLast, by simp [swapRemove, hx, hlast], hx, fun j hj => ?_⟩
  rw [getElem?_dropLast, length_set, if_pos (by omega), getElem?_set_ne (by omega)]

theorem takeOut_eq (hdesc : positions.Pairwise (· > ·)) (hlt : ∀ i ∈ positions, i < l.length) :
    takeOut l positions = positions.filterMap fun i => (l[i]?).map fun x => (i, x) := by
  induction positions generalizing l with
  | nil => rfl
  | cons i rest ih =>
    obtain ⟨hfirst, hrest⟩ := pairwise_cons.mp hdesc
    obtain ⟨x, l', hswap, hx, hsame⟩ := swapRemove_spec (hlt i (.head _))
    unfold takeOut
    rw [hswap, filterMap_cons_some (by rw [hx]; rfl)]
    dsimp only
    rw [ih hrest]
    · refine congrArg _ (filterMap_congr fun j hj => ?_)
      rw [hsame j (hfirst j hj)]
    · intro j hj
      have hji := hfirst j hj
      have hget := hsame j hji
      rw [getElem?_eq_getElem (hlt j (.tail _ hj))] at hget
      exact (List.getElem?_eq_some_iff.mp hget).1

/-- **Taking selected entries out and sorting them by position picks them in order.** -/
theorem takeOut_sorted (h : positions ∈ choose k (List.range l.length)) :
    ((takeOut l (positions.insertionSort (· ≤ ·)).reverse).insertionSort
      (fun a b => a.1 ≤ b.1)).map Prod.snd = pick l positions := by
  obtain ⟨hinc, hlt, -⟩ := mem_choose_range.mp h
  have hsorted : positions.insertionSort (· ≤ ·) = positions :=
    (hinc.imp fun hab => Nat.le_of_lt hab).insertionSort_eq
  have htake : takeOut l positions.reverse
      = (positions.filterMap fun i => (l[i]?).map fun x => (i, x)).reverse := by
    rw [takeOut_eq, filterMap_reverse]
    · exact pairwise_reverse.mpr hinc
    · exact fun i hi => hlt i (mem_reverse.mp hi)
  have hpairs : (positions.filterMap fun i => (l[i]?).map fun x => (i, x)).Pairwise
      (fun a b => a.1 < b.1) := by
    rw [pairwise_filterMap]
    refine hinc.imp fun hab a ha b hb => ?_
    obtain ⟨x, -, rfl⟩ := Option.map_eq_some_iff.mp ha
    obtain ⟨y, -, rfl⟩ := Option.map_eq_some_iff.mp hb
    exact hab
  have hentry : ∀ a ∈ positions.filterMap (fun i => (l[i]?).map fun x => (i, x)),
      l[a.1]? = some a.2 := by
    intro a ha
    obtain ⟨i, -, hi⟩ := mem_filterMap.mp ha
    obtain ⟨x, hx, rfl⟩ := Option.map_eq_some_iff.mp hi
    exact hx
  have hunique : (positions.filterMap fun i => (l[i]?).map fun x => (i, x)).reverse.insertionSort
      (fun a b => a.1 ≤ b.1) = positions.filterMap fun i => (l[i]?).map fun x => (i, x) := by
    refine @List.Perm.eq_of_pairwise _ (fun a b => a.1 ≤ b.1) _ _ ?_ ?_
      (hpairs.imp fun hab => Nat.le_of_lt hab)
      ((perm_insertionSort _ _).trans (reverse_perm _))
    · intro a b ha hb hab hba
      have ha := hentry a (mem_reverse.mp ((perm_insertionSort _ _).mem_iff.mp ha))
      have hb := hentry b hb
      rw [Nat.le_antisymm hab hba, hb] at ha
      exact Prod.ext (Nat.le_antisymm hab hba) (Option.some.inj ha).symm
    · have : Std.Total (fun a b : Nat × α => a.1 ≤ b.1) := ⟨fun a b => Nat.le_total a.1 b.1⟩
      exact pairwise_insertionSort _ _
  rw [hsorted, htake, hunique, map_filterMap]
  refine filterMap_congr fun i _ => ?_
  rw [Option.map_map]
  exact Option.map_id'

/-! ## §4. Exchanging one selection for another. -/

/-- If some sets of a family are exchanged for sets at least as large that are disjoint from all
others, the union does not shrink. -/
theorem card_biUnion_exchange {ι : Type} [DecidableEq ι] [DecidableEq α] {s : Finset ι}
    {before after : ι → Finset α} (hle : ∀ i ∈ s, (before i).card ≤ (after i).card)
    (hpair : ∀ i ∈ s, ∀ j ∈ s, i ≠ j →
      Disjoint (after i) (after j) ∨ (after i = before i ∧ after j = before j)) :
    (s.biUnion before).card ≤ (s.biUnion after).card := by
  let fixed : Finset ι := s.filter fun i => after i = before i
  let free : Finset ι := s.filter fun i => ¬ after i = before i
  have hsplit : s = fixed ∪ free := (Finset.filter_union_filter_not_eq _ _).symm
  have hfree : ∀ i ∈ free, ∀ j ∈ s, j ≠ i → Disjoint (after i) (after j) := by
    intro i hi j hj hji
    obtain ⟨hi, hnot⟩ := Finset.mem_filter.mp hi
    exact (hpair i hi j hj hji.symm).resolve_right fun h => hnot h.1
  have hfixed : fixed.biUnion after = fixed.biUnion before :=
    Finset.biUnion_congr rfl fun i hi => (Finset.mem_filter.mp hi).2
  have hdisjoint : Disjoint (fixed.biUnion after) (free.biUnion after) := by
    rw [Finset.disjoint_biUnion_left]
    intro i hi
    rw [Finset.disjoint_biUnion_right]
    intro j hj
    obtain ⟨hmem, hsame⟩ := Finset.mem_filter.mp hi
    refine (hfree j hj i hmem ?_).symm
    rintro rfl
    exact (Finset.mem_filter.mp hj).2 hsame
  calc (s.biUnion before).card = (fixed.biUnion before ∪ free.biUnion before).card := by
        rw [← Finset.union_biUnion, ← hsplit]
    _ ≤ (fixed.biUnion before).card + (free.biUnion before).card := Finset.card_union_le _ _
    _ ≤ (fixed.biUnion before).card + ∑ i ∈ free, (before i).card :=
        Nat.add_le_add_left Finset.card_biUnion_le _
    _ ≤ (fixed.biUnion after).card + ∑ i ∈ free, (after i).card := by
        rw [hfixed]
        exact Nat.add_le_add_left (Finset.sum_le_sum fun i hi => hle i (Finset.mem_filter.mp hi).1) _
    _ = (fixed.biUnion after).card + (free.biUnion after).card := by
        rw [Finset.card_biUnion fun i hi j hj hij => hfree i hi j (Finset.mem_filter.mp hj).1 hij.symm]
    _ = (s.biUnion after).card := by
        rw [← Finset.card_union_of_disjoint hdisjoint, ← Finset.union_biUnion, ← hsplit]

end Foundation.Combinations
