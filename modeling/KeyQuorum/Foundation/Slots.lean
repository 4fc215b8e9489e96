/-
  **LISTS WITH CAPPED SLOTS.**

  Entries fall into slots and carry a tag.  A list is well slotted when no
  slot holds a tag twice and none holds more than `cap` entries.  Two ways
  to grow such a list keep it so: `admitted` takes from another list whatever
  still fits, `makeRoom` drops the oldest entries of one full slot.
-/
import KeyQuorum.Foundation.Bytes
import Mathlib.Data.List.Perm.Subperm

set_option linter.unusedSectionVars false

namespace Foundation.Slots

open List

variable {α κ τ : Type} [DecidableEq κ] [DecidableEq τ] (slot : α → κ) (tag : α → τ) (cap : Nat)

/-! ## §1. Slots. -/

/-- The tags held in slot `k`, oldest first. -/
def tagsIn (l : List α) (k : κ) : List τ := (l.filter (fun p => slot p = k)).map tag

def push (held : κ → List τ) (k : κ) (t : τ) : κ → List τ :=
  Function.update held k (held k ++ [t])

def fits (held : κ → List τ) (p : α) : Bool :=
  !(held (slot p)).contains (tag p) && decide ((held (slot p)).length < cap)

/-- No slot holds a tag twice or more than `cap` entries. -/
structure Ok (l : List α) : Prop where
  nodup : ∀ k, (tagsIn slot tag l k).Nodup
  capped : ∀ k, (tagsIn slot tag l k).length ≤ cap

variable {slot tag cap}

theorem tagsIn_append (l m : List α) (k : κ) :
    tagsIn slot tag (l ++ m) k = tagsIn slot tag l k ++ tagsIn slot tag m k := by
  simp [tagsIn]

variable {l m : List α} {k : κ} {p q : α} {held : κ → List τ}

theorem mem_tagsIn : t ∈ tagsIn slot tag l k ↔ ∃ p ∈ l, slot p = k ∧ tag p = t := by
  simp [tagsIn, and_assoc]

theorem tagsIn_singleton_self (p : α) : tagsIn slot tag [p] (slot p) = [tag p] := by
  simp [tagsIn]

theorem tagsIn_singleton_ne (h : slot p ≠ k) : tagsIn slot tag [p] k = [] := by
  simp [tagsIn, h]

theorem push_tagsIn (l : List α) (p : α) :
    push (tagsIn slot tag l) (slot p) (tag p) = tagsIn slot tag (l ++ [p]) := by
  funext k
  rw [tagsIn_append]
  by_cases hk : slot p = k
  · subst hk
    rw [tagsIn_singleton_self]
    simp [push]
  · rw [tagsIn_singleton_ne hk, append_nil]
    simp [push, Function.update_of_ne (Ne.symm hk)]

theorem fits_iff : fits slot tag cap held p ↔ tag p ∉ held (slot p) ∧ (held (slot p)).length < cap := by
  simp [fits]

theorem ok_nil : Ok slot tag cap ([] : List α) := ⟨fun _ => nodup_nil, fun _ => Nat.zero_le _⟩

theorem ok_concat :
    Ok slot tag cap (l ++ [p]) ↔ Ok slot tag cap l ∧ fits slot tag cap (tagsIn slot tag l) p := by
  rw [fits_iff]
  constructor
  · intro h
    have hself := h.nodup (slot p)
    have hlen := h.capped (slot p)
    rw [tagsIn_append, tagsIn_singleton_self] at hself hlen
    rw [length_append, length_singleton] at hlen
    refine ⟨⟨fun k => ?_, fun k => ?_⟩, ?_, by omega⟩
    · have hk := h.nodup k
      rw [tagsIn_append] at hk
      exact (nodup_append.mp hk).1
    · have hk := h.capped k
      rw [tagsIn_append, length_append] at hk
      omega
    · exact fun hmem => (nodup_append.mp hself).2.2 _ hmem _ (mem_singleton_self _) rfl
  · rintro ⟨h, hnew, hroom⟩
    refine ⟨fun k => ?_, fun k => ?_⟩ <;> rw [tagsIn_append] <;> by_cases hk : slot p = k
    · subst hk
      rw [tagsIn_singleton_self]
      refine nodup_append.mpr ⟨h.nodup _, nodup_singleton _, ?_⟩
      intro a ha b hb hab
      rw [mem_singleton.mp hb] at hab
      exact hnew (hab ▸ ha)
    · rw [tagsIn_singleton_ne hk, append_nil]
      exact h.nodup k
    · subst hk
      rw [tagsIn_singleton_self, length_append, length_singleton]
      omega
    · rw [tagsIn_singleton_ne hk, append_nil]
      exact h.capped k

theorem Ok.sublist (h : Ok slot tag cap m) (hsub : l.Sublist m) :
    Ok slot tag cap l := by
  have hk : ∀ k, (tagsIn slot tag l k).Sublist (tagsIn slot tag m k) :=
    fun k => (hsub.filter _).map tag
  exact ⟨fun k => (h.nodup k).sublist (hk k),
    fun k => Nat.le_trans (hk k).length_le (h.capped k)⟩

theorem Ok.nodup_list (h : Ok slot tag cap l) : l.Nodup := by
  refine nodup_iff_sublist.mpr (fun a hsub => ?_)
  have htwice := (h.sublist hsub).nodup (slot a)
  simp [tagsIn] at htwice

/-! ## §2. Checking and admitting, entry by entry. -/

variable (slot tag cap) in
def check (held : κ → List τ) : List α → Bool
  | [] => true
  | p :: ps => fits slot tag cap held p && check (push held (slot p) (tag p)) ps

variable (slot tag cap) in
/-- The entries of a list that get in, carrying the tags held in each slot. -/
def admitted (held : κ → List τ) : List α → List α
  | [] => []
  | p :: ps =>
    if fits slot tag cap held p then p :: admitted (push held (slot p) (tag p)) ps
    else admitted held ps

theorem admitted_cons (held : κ → List τ) (p : α) (ps : List α) :
    admitted slot tag cap held (p :: ps)
      = if fits slot tag cap held p then p :: admitted slot tag cap (push held (slot p) (tag p)) ps
        else admitted slot tag cap held ps := rfl

theorem check_tagsIn (hl : Ok slot tag cap l) (m : List α) :
    check slot tag cap (tagsIn slot tag l) m ↔ Ok slot tag cap (l ++ m) := by
  induction m generalizing l with
  | nil => simp [check, hl]
  | cons p m ih =>
    rw [check, Bool.and_eq_true, push_tagsIn, append_cons l p m]
    by_cases hfit : fits slot tag cap (tagsIn slot tag l) p
    · rw [ih (ok_concat.mpr ⟨hl, hfit⟩)]
      exact ⟨fun h => h.2, fun h => ⟨hfit, h⟩⟩
    · refine ⟨fun h => absurd h.1 hfit, fun h => ?_⟩
      have hp : Ok slot tag cap (l ++ [p]) := h.sublist (sublist_append_left _ _)
      exact absurd (ok_concat.mp hp).2 hfit

theorem admitted_sublist (held : κ → List τ) (m : List α) :
    (admitted slot tag cap held m).Sublist m := by
  induction m generalizing held with
  | nil => exact .refl _
  | cons p m ih =>
    unfold admitted
    split
    · exact (ih _).cons_cons p
    · exact (ih _).cons p

/-- **Admitting keeps the list well slotted.** -/
theorem ok_append_admitted (hl : Ok slot tag cap l) (m : List α) :
    Ok slot tag cap (l ++ admitted slot tag cap (tagsIn slot tag l) m) := by
  induction m generalizing l with
  | nil => simpa [admitted] using hl
  | cons p m ih =>
    unfold admitted
    split
    next hfit =>
      rw [push_tagsIn, append_cons l p]
      exact ih (ok_concat.mpr ⟨hl, hfit⟩)
    next => exact ih hl

theorem not_fits_append (h : fits slot tag cap (tagsIn slot tag l) p ≠ true) (m : List α) :
    fits slot tag cap (tagsIn slot tag (l ++ m)) p ≠ true := by
  intro hfit
  rw [fits_iff, tagsIn_append, mem_append, length_append] at hfit
  exact h (fits_iff.mpr ⟨fun hmem => hfit.1 (.inl hmem), by omega⟩)

theorem not_fits_after :
    ∀ p ∈ m, fits slot tag cap
      (tagsIn slot tag (l ++ admitted slot tag cap (tagsIn slot tag l) m)) p ≠ true := by
  induction m generalizing l with
  | nil => intro p hp; cases hp
  | cons q m ih =>
    intro p hp
    unfold admitted
    split
    next hfit =>
      rw [push_tagsIn, append_cons l q]
      rcases mem_cons.mp hp with rfl | hp
      · -- `p` itself was just admitted, so its tag is held from here on
        refine not_fits_append ?_ _
        intro h
        refine (fits_iff.mp h).1 ?_
        exact mem_tagsIn.mpr ⟨p, by simp, rfl, rfl⟩
      · exact ih p hp
    next hfit =>
      rcases mem_cons.mp hp with rfl | hp
      · exact not_fits_append hfit _
      · exact ih p hp

theorem admitted_eq_nil (h : ∀ p ∈ m, fits slot tag cap held p ≠ true) :
    admitted slot tag cap held m = [] := by
  induction m with
  | nil => rfl
  | cons p m ih =>
    unfold admitted
    rw [if_neg (h p (.head _))]
    exact ih (fun q hq => h q (.tail _ hq))

/-- **A second pass admits nothing.** -/
theorem admitted_again (l m : List α) :
    admitted slot tag cap (tagsIn slot tag (l ++ admitted slot tag cap (tagsIn slot tag l) m)) m = [] :=
  admitted_eq_nil not_fits_after

/-! ## §3. Which entries get in. -/

variable (slot tag) in
/-- The entries of `m` in slot `k` whose tag `l` does not hold there. -/
def newIn (l m : List α) (k : κ) : List α :=
  m.filter (fun q => decide (slot q = k) && !(tagsIn slot tag l k).contains (tag q))

variable (slot tag cap) in
/-- `p` gets in: its tag is not held, and the held entries of its slot together with the new ones
that come before it in `m` leave room. -/
def GetsIn [DecidableEq α] (l m : List α) (p : α) : Prop :=
  tag p ∉ tagsIn slot tag l (slot p) ∧ (tagsIn slot tag l (slot p)).length
      + (newIn slot tag l (m.takeWhile (fun q => q ≠ p)) (slot p)).length < cap

instance [DecidableEq α] (l m : List α) (p : α) : Decidable (GetsIn slot tag cap l m p) := by
  unfold GetsIn
  infer_instance

theorem newIn_append (l m m' : List α) (k : κ) :
    newIn slot tag l (m ++ m') k = newIn slot tag l m k ++ newIn slot tag l m' k := by
  simp [newIn]

theorem newIn_singleton :
    newIn slot tag l [q] k = if slot q = k ∧ tag q ∉ tagsIn slot tag l k then [q] else [] := by
  by_cases hk : slot q = k <;> by_cases ht : tag q ∈ tagsIn slot tag l k <;>
    simp [newIn, hk, ht]

theorem admitted_append (l m m' : List α) :
    admitted slot tag cap (tagsIn slot tag l) (m ++ m') = admitted slot tag cap (tagsIn slot tag l) m
        ++ admitted slot tag cap
            (tagsIn slot tag (l ++ admitted slot tag cap (tagsIn slot tag l) m)) m' := by
  induction m generalizing l with
  | nil => simp [admitted]
  | cons p m ih =>
    simp only [cons_append, admitted]
    split
    next =>
      rw [push_tagsIn, ih (l ++ [p])]
      simp
    next => exact ih l

theorem not_mem_tagsIn_admitted (hm : Ok slot tag cap (m ++ q :: post)) :
    tag q ∉ tagsIn slot tag (admitted slot tag cap (tagsIn slot tag l) m) (slot q) := by
  intro hmem
  obtain ⟨p, hp, hslot, htag⟩ := mem_tagsIn.mp hmem
  have hpm : p ∈ m := (admitted_sublist _ m).subset hp
  have hmq : Ok slot tag cap (m ++ [q]) := hm.sublist (by simp)
  refine (fits_iff.mp (ok_concat.mp hmq).2).1 ?_
  exact mem_tagsIn.mpr ⟨p, hpm, hslot, htag⟩

theorem tagsIn_admitted_ne (held : κ → List τ) (hk : slot q ≠ k) :
    tagsIn slot tag (admitted slot tag cap held [q]) k = [] := by
  refine eq_nil_iff_forall_not_mem.mpr (fun t ht => ?_)
  obtain ⟨p, hp, hslot, -⟩ := mem_tagsIn.mp ht
  rw [mem_singleton.mp ((admitted_sublist held [q]).subset hp)] at hslot
  exact hk hslot

theorem length_tagsIn_after (hl : Ok slot tag cap l) (hm : Ok slot tag cap m) (k : κ) :
    (tagsIn slot tag (l ++ admitted slot tag cap (tagsIn slot tag l) m) k).length
      = min cap ((tagsIn slot tag l k).length + (newIn slot tag l m k).length) := by
  -- Induction from the end: the last entry is judged against all that came before.
  induction m using List.reverseRecOn with
  | nil =>
    have := hl.capped k
    simp [admitted, newIn]
    omega
  | append_singleton m q ih =>
    have hbefore := ih (hm.sublist (sublist_append_left _ _))
    have hlater := not_mem_tagsIn_admitted (l := l) hm
    rw [admitted_append, newIn_append, length_append, newIn_singleton,
      ← append_assoc, tagsIn_append, length_append, hbefore]
    by_cases hk : slot q = k
    swap
    · simp [tagsIn_admitted_ne _ hk, hk]
    subst hk
    by_cases ht : tag q ∈ tagsIn slot tag l (slot q)
    · -- held before `m`: neither admitted nor counted as new
      have hno : fits slot tag cap (tagsIn slot tag
          (l ++ admitted slot tag cap (tagsIn slot tag l) m)) q ≠ true := by
        intro h
        refine (fits_iff.mp h).1 ?_
        rw [tagsIn_append]
        exact mem_append_left _ ht
      rw [admitted_cons, if_neg hno, if_neg (fun h => h.2 ht)]
      simp [admitted, tagsIn]
    · -- new to the slot: only the room decides, and the induction says how much is left
      have hfit : fits slot tag cap (tagsIn slot tag
          (l ++ admitted slot tag cap (tagsIn slot tag l) m)) q ↔
          (tagsIn slot tag l (slot q)).length + (newIn slot tag l m (slot q)).length < cap := by
        rw [fits_iff, hbefore, tagsIn_append, mem_append]
        constructor
        · intro h
          omega
        · exact fun h => ⟨fun hmem => hmem.elim ht hlater, by omega⟩
      by_cases hroom : (tagsIn slot tag l (slot q)).length + (newIn slot tag l m (slot q)).length < cap
      · rw [admitted_cons, if_pos (hfit.mpr hroom), if_pos ⟨rfl, ht⟩, admitted, tagsIn_singleton_self]
        simp only [length_singleton]
        omega
      · rw [admitted_cons, if_neg (mt hfit.mp hroom), if_pos ⟨rfl, ht⟩, admitted]
        simp only [tagsIn, filter_nil, map_nil, length_nil, length_singleton]
        rw [tagsIn] at hroom
        omega

/-- **Which entries get in**, when the incoming list is itself well slotted. -/
theorem mem_admitted_iff [DecidableEq α] (hl : Ok slot tag cap l) (hm : Ok slot tag cap m) :
    p ∈ admitted slot tag cap (tagsIn slot tag l) m ↔ p ∈ m ∧ GetsIn slot tag cap l m p := by
  by_cases hp : p ∈ m
  swap
  · exact ⟨fun h => absurd ((admitted_sublist _ m).subset h) hp, fun h => absurd h.1 hp⟩
  obtain ⟨pre, post, rfl, hpre⟩ := eq_append_cons_of_mem hp
  have htake : (pre ++ p :: post).takeWhile (fun q => q ≠ p) = pre := by
    rw [takeWhile_append_of_pos]
    · simp
    · intro a ha
      simp only [ne_eq, decide_not, Bool.not_eq_eq_eq_not, Bool.not_true, decide_eq_false_iff_not]
      exact fun h => hpre (h ▸ ha)
  have hpost : p ∉ post := (nodup_cons.mp (nodup_append.mp hm.nodup_list).2.1).1
  have hlen := length_tagsIn_after hl (hm.sublist (sublist_append_left pre _)) (slot p)
  have hnew := not_mem_tagsIn_admitted (l := l) hm
  rw [admitted_append, mem_append]
  have hfits : p ∈ admitted slot tag cap (tagsIn slot tag
      (l ++ admitted slot tag cap (tagsIn slot tag l) pre)) (p :: post) ↔
      fits slot tag cap (tagsIn slot tag
        (l ++ admitted slot tag cap (tagsIn slot tag l) pre)) p := by
    rw [admitted_cons]
    split
    next hfit => exact ⟨fun _ => hfit, fun _ => mem_cons_self⟩
    next hfit =>
      exact ⟨fun h => absurd ((admitted_sublist _ post).subset h) hpost, fun h => absurd h hfit⟩
  rw [hfits, fits_iff, hlen, tagsIn_append, mem_append, GetsIn, htake]
  constructor
  · rintro (h | ⟨hnot, hroom⟩)
    · exact absurd ((admitted_sublist _ pre).subset h) hpre
    · exact ⟨hp, fun h => hnot (.inl h), by omega⟩
  · rintro ⟨-, hnot, hroom⟩
    exact .inr ⟨fun h => h.elim hnot hnew, by omega⟩

theorem eq_filter_of_sublist (hsub : l.Sublist m) (hm : m.Nodup) (keep : α → Bool)
    (hkeep : ∀ a ∈ m, a ∈ l ↔ keep a) : l = m.filter keep := by
  have hle := hsub.filter keep
  rw [filter_eq_self.mpr fun a ha => (hkeep a (hsub.subset ha)).mp ha] at hle
  have hback : m.filter keep ⊆ l := by
    intro a ha
    obtain ⟨hmem, hyes⟩ := mem_filter.mp ha
    exact (hkeep a hmem).mpr hyes
  exact hle.eq_of_length_le ((hm.filter keep).subperm hback).length_le

theorem admitted_eq_filter [DecidableEq α] (hl : Ok slot tag cap l) (hm : Ok slot tag cap m) :
    admitted slot tag cap (tagsIn slot tag l) m
      = m.filter (fun p => decide (GetsIn slot tag cap l m p)) := by
  refine eq_filter_of_sublist (admitted_sublist _ m) hm.nodup_list _ (fun p hp => ?_)
  rw [mem_admitted_iff hl hm, decide_eq_true_iff]
  exact and_iff_right hp

/-! ## §4. Making room. -/

variable (slot cap) in
/-- While slot `k` is full, drop its oldest entry; at most `fuel` times. -/
def makeRoomLoop (k : κ) : Nat → List α → List α
  | 0, l => l
  | fuel + 1, l =>
    if cap ≤ (l.filter (fun p => slot p = k)).length then
      makeRoomLoop k fuel (l.eraseP (fun p => slot p = k))
    else l

variable (slot cap) in
/-- Drop the oldest entries of slot `k` until one more fits. -/
def makeRoom (k : κ) (l : List α) : List α := makeRoomLoop slot cap k l.length l

theorem makeRoomLoop_sublist (k : κ) (fuel : Nat) (l : List α) :
    (makeRoomLoop slot cap k fuel l).Sublist l := by
  induction fuel generalizing l with
  | zero => exact .refl _
  | succ fuel ih =>
    unfold makeRoomLoop
    split
    · exact (ih _).trans eraseP_sublist
    · exact .refl _

theorem makeRoom_sublist (k : κ) (l : List α) : (makeRoom slot cap k l).Sublist l :=
  makeRoomLoop_sublist k _ l

theorem length_filter_eraseP (h : 0 < (l.filter (fun p => slot p = k)).length) :
    ((l.eraseP (fun p => slot p = k)).filter (fun p => slot p = k)).length + 1
      = (l.filter (fun p => slot p = k)).length := by
  induction l with
  | nil => cases h
  | cons a l ih =>
    by_cases ha : slot a = k
    · simp [eraseP_cons_of_pos, ha]
    · simp only [ha, decide_false, Bool.false_eq_true, not_false_eq_true,
        eraseP_cons_of_neg, filter_cons_of_neg] at h ⊢
      exact ih h

theorem makeRoom_room (hcap : 0 < cap) (l : List α) :
    ((makeRoom slot cap k l).filter (fun p => slot p = k)).length < cap := by
  have hloop : ∀ (fuel : Nat) (l : List α), (l.filter (fun p => slot p = k)).length ≤ fuel →
      ((makeRoomLoop slot cap k fuel l).filter (fun p => slot p = k)).length < cap := by
    intro fuel
    induction fuel with
    | zero =>
      unfold makeRoomLoop
      omega
    | succ fuel ih =>
      intro l hle
      unfold makeRoomLoop
      split
      next hfull =>
        have hfewer : ((l.eraseP (fun p => slot p = k)).filter (fun p => slot p = k)).length + 1
            = (l.filter (fun p => slot p = k)).length := length_filter_eraseP (by omega)
        exact ih _ (by omega)
      next hroom => omega
  exact hloop _ l (length_filter_le _ l)

/-- **Making room, then appending a new tag, keeps the list well slotted.** -/
theorem ok_makeRoom_concat (hcap : 0 < cap) (hl : Ok slot tag cap l)
    (hnew : tag p ∉ tagsIn slot tag l (slot p)) :
    Ok slot tag cap (makeRoom slot cap (slot p) l ++ [p]) := by
  have hsub : (makeRoom slot cap (slot p) l).Sublist l := makeRoom_sublist (slot p) l
  refine ok_concat.mpr ⟨hl.sublist hsub, fits_iff.mpr ⟨fun hmem => hnew ?_, ?_⟩⟩
  · obtain ⟨q, hq, hslot, htag⟩ := mem_tagsIn.mp hmem
    exact mem_tagsIn.mpr ⟨q, hsub.subset hq, hslot, htag⟩
  · rw [tagsIn, length_map]
    exact makeRoom_room hcap l

end Foundation.Slots
