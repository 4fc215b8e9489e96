/-
  **WHICH CHILDREN OF A SPLIT ARE USED** (`select_child_subset` in
  `key_tree.rs`).

  Without a custody policy the first `threshold` resolved children are
  used.  With one, the selections of that size are examined in
  lexicographic order, at most `100000` of them: the first that sits on
  enough devices is used, or else the one on the most devices.
-/
import KeyQuorum.Device
import KeyQuorum.Shamir
import KeyQuorum.Foundation.Combinations

namespace KeyQuorum

open List Foundation Foundation.Combinations

structure ResolvedChild where
  share : Share
  leaves : List UsedLeaf
  deriving DecidableEq, Repr

/-! ## §1. The search. -/

def flattenChildren (children : List ResolvedChild) : List Share × List UsedLeaf :=
  (children.map ResolvedChild.share, children.flatMap ResolvedChild.leaves)

def takeIndexed (children : List ResolvedChild) (indexes : List Nat) : List Share × List UsedLeaf :=
  let order := indexes.insertionSort (· ≤ ·)
  let picked := takeOut children order.reverse
  flattenChildren ((picked.insertionSort (fun a b => a.1 ≤ b.1)).map Prod.snd)

/-- The loop of `next_combination`, from position `i` on down. -/
def advance (indexes : List Nat) (n : Nat) : Nat → Option (List Nat)
  | 0 => none
  | i + 1 =>
    let limit := n - (indexes.length - 1 - i)
    if indexes.getD i 0 + 1 < limit then
      some (indexes.take i ++ List.range' (indexes.getD i 0 + 1) (indexes.length - i))
    else advance indexes n i

def nextCombination (indexes : List Nat) (n : Nat) : Option (List Nat) :=
  if indexes.length = 0 ∨ indexes.length > n then none else advance indexes n indexes.length

def examinedLimit : Nat := 100000

/-- What the search remembers: the selection on the most devices so far, with their number, and
whether custody refused one. -/
structure Search where
  best : Option (Nat × List Nat) := none
  sawCustody : Bool := false
  deriving DecidableEq, Repr

/-- A selection on too few devices replaces the best one if it has more. -/
def Search.offer (search : Search) (devices : Nat) (indexes : List Nat) : Search :=
  match search.best with
  | none => { search with best := some (devices, indexes) }
  | some (most, _) =>
    if devices > most then { search with best := some (devices, indexes) } else search

def Search.settle (search : Search) : Except Error (List Nat) :=
  match search.best with
  | some (_, indexes) => .ok indexes
  | none => if search.sawCustody then .error .custodyViolation else .error .quorumNotMet

/-! ## §2. The selections examined. -/

theorem advance_cons (x : Nat) (rest : List Nat) (n i : Nat) :
    advance (x :: rest) n (i + 1) = ((advance rest n i).map (x :: ·)).or (advance (x :: rest) n 1) := by
  induction i with
  | zero => rfl
  | succ i ih =>
    have hlimit : (x :: rest).length - 1 - (i + 1) = rest.length - 1 - i := by
      rw [length_cons]
      omega
    have hroom : (x :: rest).length - (i + 1) = rest.length - i := Nat.add_sub_add_right ..
    rw [advance, hlimit, hroom, advance.eq_2 rest]
    show (if rest.getD i 0 + 1 < _ then _ else _) = _
    split
    next => rfl
    next => exact ih

/-- **`next_combination` computes the successor** of a selection that fits. -/
theorem nextCombination_eq_next (h : indexes.length ≤ n) :
    nextCombination indexes n = next n indexes := by
  have hadvance : advance indexes n indexes.length = next n indexes := by
    clear h
    induction indexes with
    | nil => rfl
    | cons x rest ih =>
      rw [length_cons, advance_cons, ih, next.eq_2]
      cases next n rest with
      | none => rfl
      | some successor => rfl
  unfold nextCombination
  split
  next hnone =>
    have hnil : indexes = [] := length_eq_zero_iff.mp (by omega)
    rw [hnil]
    rfl
  next => exact hadvance

theorem takeIndexed_of_nodup (hnodup : indexes.Nodup) (hlt : ∀ i ∈ indexes, i < children.length) :
    takeIndexed children indexes = flattenChildren (pick children (indexes.insertionSort (· ≤ ·))) := by
  have hperm := perm_insertionSort (· ≤ ·) indexes
  have hsorted : (indexes.insertionSort (· ≤ ·)).Pairwise (· ≤ ·) := pairwise_insertionSort _ _
  have hin : indexes.insertionSort (· ≤ ·) ∈ choose indexes.length (List.range children.length) := by
    refine mem_choose_range.mpr ⟨?_, fun i hi => hlt i (hperm.mem_iff.mp hi), hperm.length_eq⟩
    exact (hsorted.and (hperm.nodup_iff.mpr hnodup)).imp fun h => Nat.lt_of_le_of_ne h.1 h.2
  rw [← takeOut_sorted hin, hsorted.insertionSort_eq]
  rfl

/-- **The successor enumerates the selections**: from `0, …, k - 1` it visits every selection of `k`
positions below `n` once, in lexicographic order, and stops; and the children taken are those at the
chosen positions, in order. -/
theorem nextCombination_enumerates (k n : Nat) (h : k ≤ n) :
    (∃ visited : List (List Nat), visited.head? = some (List.range k)
      ∧ visited.IsChain (fun a b => nextCombination a n = some b)
      ∧ (∀ last ∈ visited.getLast?, nextCombination last n = none)
      ∧ visited.Pairwise (· < ·)
      ∧ ∀ c, c ∈ visited ↔ c.Pairwise (· < ·) ∧ (∀ i ∈ c, i < n) ∧ c.length = k)
    ∧ ∀ (children : List ResolvedChild) (indexes : List Nat), indexes.Nodup →
      (∀ i ∈ indexes, i < children.length) → takeIndexed children indexes
        = flattenChildren (pick children (indexes.insertionSort (· ≤ ·))) := by
  obtain ⟨hchain, hlast⟩ := chain_choose_range k n
  have hnext : ∀ c ∈ choose k (List.range n), nextCombination c n = next n c :=
    fun c hc => nextCombination_eq_next ((mem_choose.mp hc).2 ▸ h)
  refine ⟨⟨choose k (List.range n), head?_choose_range h, ?_, fun last hl => ?_, ?_,
    fun _ => mem_choose_range⟩, fun _ _ => takeIndexed_of_nodup⟩
  · exact hchain.imp_of_mem_imp fun a b ha _ hab => (hnext a ha).trans hab
  · rw [hnext last (mem_of_getLast? hl), hlast last hl]
  · rw [range_eq_range']
    exact pairwise_choose k 0 n

theorem nextCombination_two_of_three :
    (∃ visited : List (List Nat), visited.head? = some [0, 1]
      ∧ ∀ c, c ∈ visited ↔ c.Pairwise (· < ·) ∧ (∀ i ∈ c, i < 3) ∧ c.length = 2)
    ∧ takeIndexed [⟨⟨1, []⟩, []⟩, ⟨⟨2, []⟩, []⟩, ⟨⟨3, []⟩, []⟩] [2, 0] = ([⟨1, []⟩, ⟨3, []⟩], []) := by
  obtain ⟨⟨visited, hhead, -, -, -, hmem⟩, htake⟩ := nextCombination_enumerates 2 3 (by decide)
  exact ⟨⟨visited, hhead, hmem⟩, htake _ _ (by decide) (by decide)⟩

section Select

variable [Crypto]

/-- What one round makes of a selection: stop with it, go on, or stop with an error. -/
def examine (db : Store) (keyId minimum : Nat) (children : List ResolvedChild)
    (indexes : List Nat) (search : Search) : Except Error (List Nat) ⊕ Search :=
  match db.classifyDevices keyId ((pick children indexes).flatMap ResolvedChild.leaves) with
  | .ok groups =>
    if groups.length ≥ minimum then .inl (.ok indexes)
    else .inr (search.offer groups.length indexes)
  | .error .custodyViolation => .inr { search with sawCustody := true }
  | .error .quorumNotMet => .inr search
  | .error .ghostDenied => .inr search
  | .error e => .inl (.error e)

/-- The loop of `select_child_subset`; the first argument counts the selections left to
examine. -/
def searchLoop (db : Store) (keyId minimum : Nat) (children : List ResolvedChild) :
    Nat → List Nat → Search → Except Error (List Nat)
  | 0, _, search => search.settle
  | budget + 1, indexes, search =>
    match examine db keyId minimum children indexes search with
    | .inl result => result
    | .inr search =>
      match next children.length indexes with
      | none => search.settle
      | some indexes => searchLoop db keyId minimum children budget indexes search

def selectChildSubset (policy : Option (Store × Nat)) (threshold : Nat)
    (children : List ResolvedChild) : Except Error (List Share × List UsedLeaf) :=
  if threshold = 0 || children.length < threshold then .error .quorumNotMet
  else
    match policy with
    | none => .ok (flattenChildren (children.take threshold))
    | some (db, keyId) => do
        let custody ← db.custodyPolicy keyId
        let indexes ← searchLoop db keyId custody.minimumPhysicalDevices children examinedLimit
          (List.range threshold) {}
        return takeIndexed children indexes

/-! ## §3. The search as a scan. -/

def scan (db : Store) (keyId minimum : Nat) (children : List ResolvedChild) :
    List (List Nat) → Search → Except Error (List Nat)
  | [], search => search.settle
  | indexes :: rest, search =>
    match examine db keyId minimum children indexes search with
    | .inl result => result
    | .inr search => scan db keyId minimum children rest search

variable {db : Store} {keyId minimum threshold : Nat} {children : List ResolvedChild}

/-- **The loop scans the selections in order**, as far as it is allowed to. -/
theorem searchLoop_eq_scan (hchain : (first :: rest).IsChain fun a b => next children.length a = some b)
    (hlast : ∀ last ∈ (first :: rest).getLast?, next children.length last = none) (budget : Nat)
    (search : Search) :
    searchLoop db keyId minimum children budget first search
      = scan db keyId minimum children ((first :: rest).take budget) search := by
  induction rest generalizing first budget search with
  | nil =>
    cases budget with
    | zero => rfl
    | succ budget =>
      rw [take_succ_cons, take_nil]
      unfold searchLoop scan
      cases examine db keyId minimum children first search with
      | inl result => rfl
      | inr search =>
        rw [hlast first (by simp)]
        rfl
  | cons second rest ih =>
    cases budget with
    | zero => rfl
    | succ budget =>
      obtain ⟨hstep, hrest⟩ := isChain_cons_cons.mp hchain
      rw [take_succ_cons]
      unfold searchLoop scan
      cases examine db keyId minimum children first search with
      | inl result => rfl
      | inr search =>
        rw [hstep]
        exact ih hrest (fun last h => hlast last (by simpa using h)) budget search

theorem searchLoop_selections (hle : threshold ≤ children.length) (budget : Nat) (search : Search) :
    searchLoop db keyId minimum children budget (List.range threshold) search
      = scan db keyId minimum children
        ((choose threshold (List.range children.length)).take budget) search := by
  have hhead := head?_choose_range hle
  have hchain := chain_choose_range threshold children.length
  obtain ⟨first, rest, hlist⟩ : ∃ first rest,
      choose threshold (List.range children.length) = first :: rest := by
    cases hlist : choose threshold (List.range children.length) with
    | nil => rw [hlist] at hhead; cases hhead
    | cons first rest => exact ⟨first, rest, rfl⟩
  rw [hlist] at hhead hchain ⊢
  cases hhead
  exact searchLoop_eq_scan hchain.1 hchain.2 budget search

/-! ## §4. What the search settles on. -/

variable {search : Search} {indexes result : List Nat} {selections : List (List Nat)} {devices : Nat}

omit [Crypto] in
theorem Search.offer_best (h : (search.offer devices indexes).best = some kept) :
    kept = (devices, indexes) ∨ search.best = some kept := by
  unfold Search.offer at h
  split at h
  next => exact .inl (Option.some.inj h).symm
  next =>
    split at h
    next => exact .inl (Option.some.inj h).symm
    next => exact .inr h

/-- A round stops, with the selection it looks at or an error, or goes on with that selection or
the one it had as the best. -/
theorem examine_cases (indexes : List Nat) (search : Search) :
    (∃ e, examine db keyId minimum children indexes search = .inl (.error e))
      ∨ examine db keyId minimum children indexes search = .inl (.ok indexes)
      ∨ ∃ search', examine db keyId minimum children indexes search = .inr search'
        ∧ ∀ best, search'.best = some best → best.2 = indexes ∨ search.best = some best := by
  unfold examine
  split
  next =>
    split
    next => exact .inr (.inl rfl)
    next => exact .inr (.inr ⟨_, rfl, fun _ h => (Search.offer_best h).imp_left (congrArg Prod.snd)⟩)
  next => exact .inr (.inr ⟨_, rfl, fun _ => .inr⟩)
  next => exact .inr (.inr ⟨_, rfl, fun _ => .inr⟩)
  next => exact .inr (.inr ⟨_, rfl, fun _ => .inr⟩)
  next => exact .inl ⟨_, rfl⟩

theorem scan_mem (hsub : todo ⊆ selections)
    (hbest : ∀ best, search.best = some best → best.2 ∈ selections)
    (h : scan db keyId minimum children todo search = .ok result) : result ∈ selections := by
  induction todo generalizing search with
  | nil =>
    change search.settle = .ok result at h
    unfold Search.settle at h
    split at h
    next devices indexes hsettled =>
      obtain rfl := Except.ok.inj h
      exact hbest _ hsettled
    next => split at h <;> exact absurd h (by simp)
  | cons indexes rest ih =>
    have hin : indexes ∈ selections := hsub mem_cons_self
    unfold scan at h
    rcases @examine_cases _ db keyId minimum children indexes search with
      ⟨e, hexamine⟩ | hexamine | ⟨search', hexamine, hkept⟩ <;> rw [hexamine] at h
    · cases h
    · obtain rfl := Except.ok.inj h
      exact hin
    · refine ih (fun x hx => hsub (mem_cons_of_mem _ hx)) (fun best hsome => ?_) h
      rcases hkept best hsome with heq | hold
      · rwa [heq]
      · exact hbest best hold

/-- **Whatever is used is a selection** of `threshold` resolved children, in their order. -/
theorem selectChildSubset_sublist
    (h : selectChildSubset policy threshold children = .ok (shares, leaves)) :
    ∃ picked : List ResolvedChild, picked.Sublist children ∧ picked.length = threshold
      ∧ flattenChildren picked = (shares, leaves) := by
  obtain ⟨hsize, h⟩ := else_ok h
  have hle : threshold ≤ children.length := by
    simp only [Bool.or_eq_true, decide_eq_true_eq, not_or] at hsize
    omega
  split at h
  next =>
    refine ⟨children.take threshold, take_sublist _ _, ?_, Except.ok.inj h⟩
    rw [length_take]
    omega
  next db keyId =>
    obtain ⟨custody, -, h⟩ := try_ok h
    obtain ⟨indexes, hindexes, h⟩ := try_ok h
    rw [searchLoop_selections hle] at hindexes
    have hin : indexes ∈ choose threshold (List.range children.length) := by
      refine mem_of_mem_take (scan_mem (List.Subset.refl _) ?_ hindexes)
      exact fun _ hbest => absurd hbest (by simp)
    have hpick := mem_choose.mp (mem_choose_iff_pick.mpr ⟨indexes, hin, rfl⟩)
    refine ⟨pick children indexes, hpick.1, hpick.2, ?_⟩
    rw [← takeOut_sorted hin]
    exact Except.ok.inj h

/-! ## §5. The search finds what is as good. -/

def leavesAt (children : List ResolvedChild) (indexes : List Nat) : List UsedLeaf :=
  (pick children indexes).flatMap ResolvedChild.leaves

/-- `result` serves a minimum at least as well as `other` does. -/
def AsGood (db : Store) (minimum : Nat) (result other : List UsedLeaf) : Prop :=
  minimum ≤ db.deviceCount result ∨ db.deviceCount other ≤ db.deviceCount result

/-- What a search has settled on so far: an acceptable selection with its number of devices. -/
def Search.Holds (search : Search) (db : Store) (mode : CustodyMode)
    (children : List ResolvedChild) : Prop :=
  ∀ devices indexes, search.best = some (devices, indexes) →
    db.Acceptable mode (leavesAt children indexes) ∧ devices = db.deviceCount (leavesAt children indexes)

/-- A search that already beats `other`. -/
def Search.Beats (search : Search) (db : Store) (other : List UsedLeaf) : Prop :=
  ∃ devices indexes, search.best = some (devices, indexes) ∧ db.deviceCount other ≤ devices

section Offer

variable {search : Search} {mode : CustodyMode} {indexes : List Nat} {other : List UsedLeaf}

theorem Search.Holds.offer (h : search.Holds db mode children)
    (hacceptable : db.Acceptable mode (leavesAt children indexes)) :
    (search.offer (db.deviceCount (leavesAt children indexes)) indexes).Holds db mode children := by
  intro devices i hbest
  rcases Search.offer_best hbest with heq | hbest
  · cases heq
    exact ⟨hacceptable, rfl⟩
  · exact h devices i hbest

theorem Search.offer_beats (h : db.deviceCount other ≤ devices) :
    (search.offer devices indexes).Beats db other := by
  unfold Search.offer
  split
  next => exact ⟨devices, indexes, rfl, h⟩
  next most old hbest =>
    split
    next => exact ⟨devices, indexes, rfl, h⟩
    next hless => exact ⟨most, old, hbest, by omega⟩

theorem Search.Beats.offer (h : search.Beats db other) (devices : Nat) (indexes : List Nat) :
    (search.offer devices indexes).Beats db other := by
  obtain ⟨most, old, hbest, hle⟩ := h
  unfold Search.offer
  rw [hbest]
  dsimp only
  split
  next hmore => exact ⟨devices, indexes, rfl, by omega⟩
  next => exact ⟨most, old, hbest, hle⟩

end Offer

variable {policy : CustodyPolicy} (hpolicy : db.custodyPolicy keyId = .ok policy)

include hpolicy

/-- What one round does when every key is registered: it stops with a good selection, or goes on
with a search that remembers an acceptable one. -/
theorem examine_spec {indexes : List Nat} {search : Search} (hne : leavesAt children indexes ≠ [])
    (hkeys : ∀ leaf ∈ leavesAt children indexes, ∃ key, db.getKey leaf.hardwareKeyId = .ok key)
    (hholds : search.Holds db policy.mode children) :
    (examine db keyId minimum children indexes search = .inl (.ok indexes)
        ∧ db.Acceptable policy.mode (leavesAt children indexes)
        ∧ minimum ≤ db.deviceCount (leavesAt children indexes))
      ∨ ∃ search', examine db keyId minimum children indexes search = .inr search'
        ∧ search'.Holds db policy.mode children
        ∧ (∀ other, search.Beats db other → search'.Beats db other)
        ∧ (db.Acceptable policy.mode (leavesAt children indexes) →
          search'.Beats db (leavesAt children indexes)) := by
  unfold examine
  rw [show (pick children indexes).flatMap ResolvedChild.leaves = leavesAt children indexes from rfl]
  cases hclassify : db.classifyDevices keyId (leavesAt children indexes) with
  | ok groups =>
    obtain ⟨policy', hpolicy', -, hacceptable, hlength⟩ := Store.classifyDevices_ok hclassify
    obtain rfl := Except.ok.inj (hpolicy.symm.trans hpolicy')
    dsimp only
    rw [hlength]
    split
    next henough => exact .inl ⟨rfl, hacceptable, henough⟩
    next =>
      exact .inr ⟨_, rfl, hholds.offer hacceptable, fun other hother => hother.offer _ _,
        fun _ => Search.offer_beats (Nat.le_refl _)⟩
  | error e =>
    -- an acceptable selection is grouped without an error
    have hnot : ¬ db.Acceptable policy.mode (leavesAt children indexes) := by
      intro hacceptable
      obtain ⟨groups, hgroups, -⟩ := Store.classifyDevices_of_acceptable hpolicy hne hacceptable
      rw [hgroups] at hclassify
      cases hclassify
    right
    rcases Store.classifyDevices_error hpolicy hkeys hclassify with rfl | rfl | rfl
    · exact ⟨search, rfl, hholds, fun _ h => h, fun h => absurd h hnot⟩
    · exact ⟨search, rfl, hholds, fun _ h => h, fun h => absurd h hnot⟩
    · exact ⟨_, rfl, hholds, fun _ h => h, fun h => absurd h hnot⟩

/-- **What the search settles on is as good as anything acceptable it examines.** -/
theorem scan_best {todo : List (List Nat)} {search : Search}
    (hne : ∀ indexes ∈ todo, leavesAt children indexes ≠ [])
    (hkeys : ∀ indexes ∈ todo, ∀ leaf ∈ leavesAt children indexes,
      ∃ key, db.getKey leaf.hardwareKeyId = .ok key)
    (hholds : search.Holds db policy.mode children) {other : List UsedLeaf}
    (hgood : search.Beats db other ∨ ∃ indexes ∈ todo, leavesAt children indexes = other
      ∧ db.Acceptable policy.mode other) :
    ∃ result, scan db keyId minimum children todo search = .ok result
      ∧ db.Acceptable policy.mode (leavesAt children result)
      ∧ AsGood db minimum (leavesAt children result) other := by
  induction todo generalizing search with
  | nil =>
    obtain ⟨devices, indexes, hbest, hle⟩ := hgood.resolve_right (by simp)
    obtain ⟨hacceptable, rfl⟩ := hholds devices indexes hbest
    refine ⟨indexes, ?_, hacceptable, .inr hle⟩
    show search.settle = _
    unfold Search.settle
    rw [hbest]
  | cons indexes rest ih =>
    unfold scan
    rcases @examine_spec _ db keyId minimum children policy hpolicy indexes search (hne indexes (.head _))
        (hkeys indexes (.head _)) hholds with
      ⟨hstop, hacceptable, henough⟩ | ⟨search', hgo, hholds', hkeep, hbeats⟩
    · rw [hstop]
      exact ⟨indexes, rfl, hacceptable, .inl henough⟩
    · rw [hgo]
      refine ih (fun i hi => hne i (.tail _ hi)) (fun i hi => hkeys i (.tail _ hi)) hholds' ?_
      rcases hgood with hbeat | ⟨i, hi, rfl, hacceptable⟩
      · exact .inl (hkeep other hbeat)
      · rcases mem_cons.mp hi with rfl | hi
        · exact .inl (hbeats hacceptable)
        · exact .inr ⟨i, hi, rfl, hacceptable⟩

/-- **Selecting with a policy** finds a selection that serves the minimum as well as any given
acceptable one among those it examines. -/
theorem selectChildSubset_best {threshold : Nat} (hpos : 0 < threshold)
    (hne : ∀ child ∈ children, child.leaves ≠ [])
    (hkeys : ∀ child ∈ children, ∀ leaf ∈ child.leaves, ∃ key, db.getKey leaf.hardwareKeyId = .ok key)
    {other : List ResolvedChild} (hother : other ∈ (choose threshold children).take examinedLimit)
    (hacceptable : db.Acceptable policy.mode (other.flatMap ResolvedChild.leaves)) :
    ∃ picked : List ResolvedChild, picked.Sublist children ∧ picked.length = threshold
      ∧ selectChildSubset (some (db, keyId)) threshold children = .ok (flattenChildren picked)
      ∧ db.Acceptable policy.mode (picked.flatMap ResolvedChild.leaves)
      ∧ AsGood db policy.minimumPhysicalDevices (picked.flatMap ResolvedChild.leaves)
        (other.flatMap ResolvedChild.leaves) := by
  have hle : threshold ≤ children.length := by
    obtain ⟨hsub, hlength⟩ := mem_choose.mp (mem_of_mem_take hother)
    exact hlength ▸ hsub.length_le
  have hpicked : ∀ indexes ∈ (choose threshold (List.range children.length)).take examinedLimit,
      (pick children indexes).Sublist children ∧ (pick children indexes).length = threshold :=
    fun indexes hin => mem_choose.mp (mem_choose_iff_pick.mpr ⟨indexes, mem_of_mem_take hin, rfl⟩)
  rw [← choose_pick, ← map_take] at hother
  obtain ⟨positions, hpositions, rfl⟩ := mem_map.mp hother
  have hscan := @scan_best _ db keyId policy.minimumPhysicalDevices children policy hpolicy
    ((choose threshold (List.range children.length)).take examinedLimit) {} (fun indexes hin => ?_)
    (fun indexes hin leaf hleaf => ?_) (fun _ _ hbest => absurd hbest (by simp))
    _ (.inr ⟨positions, hpositions, rfl, hacceptable⟩)
  · obtain ⟨result, hresult, hacc, hgood⟩ := hscan
    have hin := scan_mem (List.Subset.refl _) (fun _ hbest => absurd hbest (by simp)) hresult
    rw [← searchLoop_selections hle] at hresult
    refine ⟨pick children result, (hpicked result hin).1, (hpicked result hin).2, ?_, hacc, hgood⟩
    unfold selectChildSubset
    rw [if_neg (by simp; omega)]
    dsimp only
    rw [hpolicy, except_ok_bind, hresult, except_ok_bind, ← takeOut_sorted (mem_of_mem_take hin)]
    rfl
  · obtain ⟨hsubset, hlen⟩ := hpicked indexes hin
    unfold leavesAt
    rw [ne_eq, flatMap_eq_nil_iff]
    intro hnil
    obtain ⟨child, hchild⟩ : ∃ child, child ∈ pick children indexes :=
      exists_mem_of_length_pos (by omega)
    exact hne child (hsubset.subset hchild) (hnil child hchild)
  · obtain ⟨child, hchild, hleaf⟩ := mem_flatMap.mp hleaf
    exact hkeys child ((hpicked indexes hin).1.subset hchild) leaf hleaf

end Select

end KeyQuorum
