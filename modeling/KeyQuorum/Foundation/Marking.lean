/-
  **MARKING EVERYTHING REACHABLE, WITH A STACK.**

  Two stack loops over a graph of keys, each with a bound on its rounds that
  is proved to suffice.
-/
import KeyQuorum.Foundation.Bytes

namespace Foundation.Marking

open List

variable {ι : Type} (index : ι → Option Nat) (table : List (List ι))

/-- Pop, look up, mark, push: at most `fuel` rounds. The top of the stack is the list's head. -/
def markLoop : Nat → List ι → List Bool → List Bool
  | 0, _, marked => marked
  | _ + 1, [], marked => marked
  | fuel + 1, next :: stack, marked =>
    match index next with
    | none => markLoop fuel stack marked
    | some i =>
      match marked[i]? with
      | some false => markLoop fuel ((table.getD i []).reverse ++ stack) (marked.set i true)
      | _ => markLoop fuel stack marked

/-- Rounds that always suffice: each pointer is pushed at most once, plus the start. -/
def bound : Nat := 1 + (table.map List.length).sum

def mark (start : ι) : List Bool :=
  markLoop index table (bound table) [start] (List.replicate table.length false)

def Step (d p : ι) : Prop := ∃ i, index d = some i ∧ p ∈ table.getD i []

/-! ## §1. The bound. -/

def pending : List Bool → List (List ι) → Nat
  | m :: ms, ls :: table => (if m then 0 else ls.length) + pending ms table
  | _, _ => 0

theorem pending_replicate (table : List (List ι)) :
    pending (List.replicate table.length false) table = (table.map List.length).sum := by
  induction table with
  | nil => rfl
  | cons ls table ih => simp [pending, replicate_succ, ih]

variable {marked : List Bool}

theorem pending_set {table : List (List ι)} {i : Nat}
    (hlen : marked.length = table.length) (hi : marked[i]? = some false) :
    pending (marked.set i true) table + (table.getD i []).length = pending marked table := by
  induction marked generalizing table i with
  | nil => cases hi
  | cons m ms ih =>
    cases table with
    | nil => cases hlen
    | cons ls table =>
      cases i with
      | zero =>
        simp only [getElem?_cons_zero, Option.some.injEq] at hi
        subst hi
        simp [pending, Nat.add_comm]
      | succ i =>
        have hrest := @ih table i (by simpa using hlen) (by simpa using hi)
        simp only [set_cons_succ, pending, getD_cons_succ]
        omega

/-! ## §2. The loop invariant. -/

/-- `k` is on the stack, or its index (if it has one) is marked. -/
def Covered (stack : List ι) (marked : List Bool) (k : ι) : Prop :=
  k ∈ stack ∨ ∀ i, index k = some i → marked[i]? = some true

structure Inv (start : ι) (stack : List ι) (marked : List Bool) : Prop where
  length_eq : marked.length = table.length
  stack_reach : ∀ k ∈ stack, Relation.ReflTransGen (Step index table) start k
  marked_reach : ∀ i, marked[i]? = some true →
    ∃ k, Relation.ReflTransGen (Step index table) start k ∧ index k = some i
  start_covered : Covered index stack marked start
  links_covered : ∀ i, marked[i]? = some true → ∀ p ∈ table.getD i [], Covered index stack marked p

variable {index table}

theorem inv_init (start : ι) :
    Inv index table start [start] (List.replicate table.length false) where
  length_eq := length_replicate
  stack_reach := by
    intro k hk
    rw [mem_singleton.mp hk]
  marked_reach := by
    intro i hi
    simp [getElem?_replicate] at hi
  start_covered := .inl (.head _)
  links_covered := by
    intro i hi
    simp [getElem?_replicate] at hi

variable {next : ι}

theorem covered_pop (hnext : ∀ i, index next = some i → marked[i]? = some true)
    (h : Covered index (next :: stack) marked k) : Covered index stack marked k := by
  rcases h with hmem | hmark
  · rcases mem_cons.mp hmem with rfl | hmem
    · exact .inr hnext
    · exact .inl hmem
  · exact .inr hmark

theorem inv_skip (h : Inv index table start (next :: stack) marked)
    (hnext : ∀ i, index next = some i → marked[i]? = some true) :
    Inv index table start stack marked where
  length_eq := h.length_eq
  stack_reach := fun k hk => h.stack_reach k (.tail _ hk)
  marked_reach := h.marked_reach
  start_covered := covered_pop hnext h.start_covered
  links_covered := fun i hi p hp => covered_pop hnext (h.links_covered i hi p hp)

theorem inv_visit (h : Inv index table start (next :: stack) marked) (hi : index next = some i)
    (hfalse : marked[i]? = some false) :
    Inv index table start ((table.getD i []).reverse ++ stack) (marked.set i true) := by
  have hlt : i < marked.length := (List.getElem?_eq_some_iff.mp hfalse).1
  have hself : (marked.set i true)[i]? = some true := by simp [hlt]
  have hmono : ∀ j : Nat, marked[j]? = some true → (marked.set i true)[j]? = some true := by
    intro j hj
    rw [getElem?_set]
    split
    · simp
    · exact hj
  have hnext := h.stack_reach next (.head _)
  -- Whatever was covered stays covered: the popped key is now marked.
  have hcov : ∀ k, Covered index (next :: stack) marked k →
      Covered index ((table.getD i []).reverse ++ stack) (marked.set i true) k := by
    rintro k (hmem | hmark)
    · rcases mem_cons.mp hmem with rfl | hmem
      · refine .inr fun j hj => ?_
        obtain rfl := Option.mem_unique hi hj
        exact hself
      · exact .inl (mem_append_right _ hmem)
    · exact .inr (fun j hj => hmono j (hmark j hj))
  refine ⟨by simp [h.length_eq], ?_, ?_, hcov _ h.start_covered, ?_⟩
  · -- the pushed keys are one step beyond the popped one
    intro k hk
    rcases mem_append.mp hk with hk | hk
    · exact hnext.tail ⟨i, hi, mem_reverse.mp hk⟩
    · exact h.stack_reach k (.tail _ hk)
  · intro j hj
    by_cases hij : i = j
    · subst hij
      exact ⟨next, hnext, hi⟩
    · rw [getElem?_set_ne hij] at hj
      exact h.marked_reach j hj
  · -- the new mark's own pointers are on the stack; older marks were covered before
    intro j hj p hp
    by_cases hij : i = j
    · subst hij
      exact .inl (mem_append_left _ (mem_reverse.mpr hp))
    · rw [getElem?_set_ne hij] at hj
      exact hcov p (h.links_covered j hj p hp)

/-- **The loop runs to the empty stack** within the bound, invariant intact. -/
theorem markLoop_inv (hindex : ∀ k i, index k = some i → i < table.length) :
    ∀ (fuel : Nat) (stack : List ι) (marked : List Bool) (start : ι),
      Inv index table start stack marked → stack.length + pending marked table ≤ fuel →
      Inv index table start [] (markLoop index table fuel stack marked) := by
  -- A round spends one unit: it drops a stack entry, or trades pending pointers for stack entries.
  intro fuel
  induction fuel with
  | zero =>
    intro stack marked start h hle
    have hnil : stack = [] := length_eq_zero_iff.mp (by omega)
    subst hnil
    exact h
  | succ fuel ih =>
    intro stack marked start h hle
    cases stack with
    | nil => exact h
    | cons next stack =>
      simp only [length_cons] at hle
      simp only [markLoop]
      cases hi : index next with
      | none =>
        refine ih stack marked start (inv_skip h ?_) (by omega)
        intro i hsome
        rw [hi] at hsome
        cases hsome
      | some i =>
        have hlt : i < marked.length := h.length_eq ▸ hindex next i hi
        have hget : marked[i]? = some marked[i] := getElem?_eq_getElem hlt
        cases hm : marked[i] with
        | false =>
          rw [hm] at hget
          simp only [hget]
          refine ih _ _ start (inv_visit h hi hget) ?_
          have := pending_set h.length_eq hget
          simp only [length_append, length_reverse]
          omega
        | true =>
          rw [hm] at hget
          simp only [hget]
          refine ih stack marked start (inv_skip h ?_) (by omega)
          intro j hj
          obtain rfl := Option.mem_unique hi hj
          exact hget

/-! ## §3. The result. -/

/-- **Marked exactly means reachable.** -/
theorem mark_iff (hindex : ∀ k i, index k = some i → i < table.length) (start : ι) (i : Nat) :
    (mark index table start)[i]? = some true ↔
      ∃ k, Relation.ReflTransGen (Step index table) start k ∧ index k = some i := by
  have hfin : Inv index table start [] (mark index table start) := by
    refine markLoop_inv hindex _ _ _ start (inv_init start) ?_
    rw [pending_replicate]
    exact Nat.le_refl _
  constructor
  · exact hfin.marked_reach i
  · rintro ⟨k, hreach, hk⟩
    -- Along the path every key is marked: the invariant covers it and the stack is empty.
    have hall : ∀ k, Relation.ReflTransGen (Step index table) start k →
        ∀ i, index k = some i → (mark index table start)[i]? = some true := by
      intro k hr
      induction hr with
      | refl =>
        rcases hfin.start_covered with h | h
        · cases h
        · exact h
      | tail _ hstep ih =>
        obtain ⟨j, hj, hp⟩ := hstep
        rcases hfin.links_covered j (ih j hj) _ hp with h | h
        · cases h
        · exact h
    exact hall k hreach i hk

/-! ## §4. Searching for one key. -/

section Search

variable [DecidableEq ι] (links : ι → List ι) (target : ι)

/-- Pop until the target turns up, skipping the keys already seen; at most `fuel` rounds. -/
def searchLoop : Nat → List ι → List ι → Bool
  | 0, _, _ => false
  | _ + 1, [], _ => false
  | fuel + 1, k :: stack, seen =>
    if k = target then true
    else if seen.contains k then searchLoop fuel stack seen
    else searchLoop fuel ((links k).reverse ++ stack) (k :: seen)

def unseen (seen : List ι) : List ι → Nat
  | [] => 0
  | k :: known => (if k ∈ seen then 0 else (links k).length) + unseen seen known

/-- Look for the target from `start`, over the keys that have pointers. -/
def search (known : List ι) (start : ι) : Bool :=
  searchLoop links target (1 + unseen links [] known) [start] []

structure SearchInv (start : ι) (stack seen : List ι) : Prop where
  stack_reach : ∀ k ∈ stack, Relation.ReflTransGen (fun d p => p ∈ links d) start k
  start_held : start ∈ seen ∨ start ∈ stack
  links_held : ∀ k ∈ seen, ∀ p ∈ links k, p ∈ seen ∨ p ∈ stack
  not_found : target ∉ seen

variable {links target}

theorem unseen_cons_le (k : ι) (seen known : List ι) :
    unseen links (k :: seen) known ≤ unseen links seen known := by
  induction known with
  | nil => exact Nat.le_refl _
  | cons a known ih =>
    simp only [unseen]
    by_cases ha : a ∈ seen
    · simpa [ha] using ih
    · rw [if_neg ha]
      split <;> omega

variable {start : ι}

theorem unseen_cons (hk : k ∈ known) (hnew : k ∉ seen) :
    unseen links (k :: seen) known + (links k).length ≤ unseen links seen known := by
  induction known with
  | nil => cases hk
  | cons a known ih =>
    simp only [unseen]
    by_cases hak : a = k
    · subst hak
      have hle : unseen links (a :: seen) known ≤ unseen links seen known := unseen_cons_le a seen known
      simp only [mem_cons, true_or, if_true, hnew, if_false]
      omega
    · have hrest := ih ((mem_cons.mp hk).resolve_left (fun h => hak h.symm))
      simp only [mem_cons, hak, false_or]
      omega

omit [DecidableEq ι] in
theorem searchInv_skip (h : SearchInv links target start (k :: stack) seen) (hseen : k ∈ seen) :
    SearchInv links target start stack seen where
  stack_reach := fun x hx => h.stack_reach x (.tail _ hx)
  start_held := h.start_held.elim .inl
    (fun hs => (mem_cons.mp hs).elim (fun he => .inl (he ▸ hseen)) .inr)
  links_held := fun x hx p hp => (h.links_held x hx p hp).elim .inl
    (fun hs => (mem_cons.mp hs).elim (fun he => .inl (he ▸ hseen)) .inr)
  not_found := h.not_found

omit [DecidableEq ι] in
theorem searchInv_visit (h : SearchInv links target start (k :: stack) seen) (hne : k ≠ target) :
    SearchInv links target start ((links k).reverse ++ stack) (k :: seen) := by
  have hmove : ∀ x, x ∈ seen ∨ x ∈ k :: stack → x ∈ k :: seen ∨ x ∈ (links k).reverse ++ stack := by
    rintro x (hx | hx)
    · exact .inl (.tail _ hx)
    · rcases mem_cons.mp hx with rfl | hx
      · exact .inl (.head _)
      · exact .inr (mem_append_right _ hx)
  refine ⟨?_, hmove _ h.start_held, ?_, ?_⟩
  · intro x hx
    rcases mem_append.mp hx with hx | hx
    · exact (h.stack_reach k (.head _)).tail (mem_reverse.mp hx)
    · exact h.stack_reach x (.tail _ hx)
  · intro x hx p hp
    rcases mem_cons.mp hx with rfl | hx
    · exact .inr (mem_append_left _ (mem_reverse.mpr hp))
    · exact hmove p (h.links_held x hx p hp)
  · intro hmem
    rcases mem_cons.mp hmem with rfl | hmem
    · exact hne rfl
    · exact h.not_found hmem

theorem searchLoop_iff (hknown : ∀ k, k ∉ known → links k = []) :
    ∀ (fuel : Nat) (stack seen : List ι), SearchInv links target start stack seen →
      stack.length + unseen links seen known ≤ fuel →
      (searchLoop links target fuel stack seen ↔
        Relation.ReflTransGen (fun d p => p ∈ links d) start target) := by
  -- An empty stack means the keys seen are closed under pointers, and the target is not one.
  have hempty : ∀ seen, SearchInv links target start [] seen →
      ¬ Relation.ReflTransGen (fun d p => p ∈ links d) start target := by
    intro seen h hreach
    have hall : ∀ x, Relation.ReflTransGen (fun d p => p ∈ links d) start x → x ∈ seen := by
      intro x hx
      induction hx with
      | refl => exact h.start_held.resolve_right not_mem_nil
      | tail _ hp ih => exact (h.links_held _ ih _ hp).resolve_right not_mem_nil
    exact h.not_found (hall target hreach)
  intro fuel
  induction fuel with
  | zero =>
    intro stack seen h hle
    have hnil : stack = [] := length_eq_zero_iff.mp (by omega)
    subst hnil
    simpa [searchLoop] using hempty seen h
  | succ fuel ih =>
    intro stack seen h hle
    cases stack with
    | nil => simpa [searchLoop] using hempty seen h
    | cons k stack =>
      simp only [length_cons] at hle
      unfold searchLoop
      split
      next hfound => simpa using hfound ▸ h.stack_reach k (.head _)
      next hne =>
        split
        next hseen =>
          exact ih stack seen (searchInv_skip h (by simpa using hseen)) (by omega)
        next hnew =>
          refine ih _ _ (searchInv_visit h hne) ?_
          rw [contains_eq_mem, decide_eq_true_eq] at hnew
          rw [length_append, length_reverse]
          by_cases hk : k ∈ known
          · have hless : unseen links (k :: seen) known + (links k).length ≤ unseen links seen known :=
              unseen_cons hk hnew
            omega
          · have hless : unseen links (k :: seen) known ≤ unseen links seen known :=
              unseen_cons_le k seen known
            rw [hknown k hk, length_nil]
            omega

/-- **The search answers reachability.** -/
theorem search_iff (hknown : ∀ k, k ∉ known → links k = []) (start : ι) :
    search links target known start ↔
      Relation.ReflTransGen (fun d p => p ∈ links d) start target := by
  refine searchLoop_iff hknown _ _ _ ⟨?_, .inr (.head _), by simp, by simp⟩ ?_
  · intro k hk
    rw [mem_singleton.mp hk]
  · simp

end Search

end Foundation.Marking
