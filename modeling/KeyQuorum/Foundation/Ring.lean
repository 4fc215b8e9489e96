/-
  Foundation.Ring
  **A RING OF SLOTS.**

  A ring has a capacity, a read pointer, a write pointer and a span; the
  relations between them are part of the type.  Items stand in slots named
  by their index.  The window is the slots from the read pointer on, in
  order; a ring whose occupied slots are exactly its window holds a queue,
  and the three operations are those of a queue.
-/
import Mathlib.Data.List.Nodup
import Mathlib.Data.List.Range
import Mathlib.Data.Int.ModEq

namespace Foundation

open List

structure Ring where
  capacity : Nat
  readIndex : Nat
  writeIndex : Nat
  size : Nat
  read_lt : readIndex < capacity
  size_le : size ≤ capacity
  write_eq : (readIndex + size) % capacity = writeIndex
  deriving DecidableEq

namespace Ring

/-! ## §1. Pointers. -/

def new (capacity : Nat) (h : 0 < capacity) : Ring :=
  ⟨capacity, 0, 0, 0, h, Nat.zero_le _, Nat.zero_mod _⟩

def advance (r : Ring) (h : r.size < r.capacity) : Ring where
  capacity := r.capacity
  readIndex := r.readIndex
  writeIndex := (r.writeIndex + 1) % r.capacity
  size := r.size + 1
  read_lt := r.read_lt
  size_le := h
  write_eq := by rw [← r.write_eq, Nat.mod_add_mod, Nat.add_assoc]

def step (r : Ring) (h : 0 < r.size) : Ring where
  capacity := r.capacity
  readIndex := (r.readIndex + 1) % r.capacity
  writeIndex := r.writeIndex
  size := r.size - 1
  read_lt := Nat.mod_lt _ (Nat.zero_lt_of_lt r.read_lt)
  size_le := Nat.le_trans (Nat.sub_le _ _) r.size_le
  write_eq := by
    rw [← r.write_eq, Nat.mod_add_mod]
    congr 1
    omega

/-- Move the read pointer past empty slots, at most a number of times. -/
def skipUpTo (held : Nat → Bool) : Nat → Ring → Ring
  | 0, r => r
  | n + 1, r => if h : 0 < r.size ∧ held r.readIndex = false then skipUpTo held n (r.step h.1) else r

def skip (held : Nat → Bool) (r : Ring) : Ring := skipUpTo held r.size r

variable {r : Ring} {j : Nat}

theorem skip_stays (h : r.size = 0 ∨ held r.readIndex) : skip held r = r := by
  unfold skip
  cases hsize : r.size with
  | zero => rfl
  | succ n =>
    rw [skipUpTo, dif_neg]
    rintro ⟨-, hfree⟩
    rcases h with h | h
    · omega
    · exact absurd (h.symm.trans hfree) (by decide)

theorem skip_step (hsize : 0 < r.size) (hfree : held r.readIndex = false) :
    skip held r = skip held (r.step hsize) := by
  obtain ⟨n, hn⟩ : ∃ n, r.size = n + 1 := ⟨r.size - 1, by omega⟩
  have hrest : (r.step hsize).size = n := by
    show r.size - 1 = n
    omega
  unfold skip
  rw [hn, hrest, skipUpTo, dif_pos ⟨hsize, hfree⟩]

/-! ## §2. The window. -/

def slotAt (r : Ring) (k : Nat) : Nat := (r.readIndex + k) % r.capacity

def window (r : Ring) : List Nat := (List.range r.size).map r.slotAt

theorem slotAt_zero (r : Ring) : r.slotAt 0 = r.readIndex := Nat.mod_eq_of_lt r.read_lt

theorem slotAt_size (r : Ring) : r.slotAt r.size = r.writeIndex := r.write_eq

theorem slotAt_inj (hj : j < r.capacity) (hk : k < r.capacity) (h : r.slotAt j = r.slotAt k) :
    j = k := by
  have hmod : j ≡ k [MOD r.capacity] := Nat.ModEq.add_left_cancel' r.readIndex h
  have hjk : j % r.capacity = k % r.capacity := hmod
  rwa [Nat.mod_eq_of_lt hj, Nat.mod_eq_of_lt hk] at hjk

theorem mem_window : i ∈ r.window ↔ ∃ k < r.size, r.slotAt k = i := by
  unfold window
  simp [mem_map, mem_range]

theorem window_nodup (r : Ring) : r.window.Nodup := by
  refine List.Nodup.map_on (fun j hj k hk h => ?_) nodup_range
  have hj := mem_range.mp hj
  have hk := mem_range.mp hk
  exact slotAt_inj (Nat.lt_of_lt_of_le hj r.size_le) (Nat.lt_of_lt_of_le hk r.size_le) h

theorem writeIndex_not_mem_window (h : r.size < r.capacity) : r.writeIndex ∉ r.window := by
  rw [mem_window]
  rintro ⟨k, hk, heq⟩
  rw [← r.slotAt_size] at heq
  exact absurd (slotAt_inj (Nat.lt_trans hk h) h heq) (Nat.ne_of_lt hk)

theorem window_advance (h : r.size < r.capacity) :
    (r.advance h).window = r.window ++ [r.writeIndex] := by
  show (List.range (r.size + 1)).map r.slotAt = _
  rw [range_succ, map_append, ← r.slotAt_size]
  rfl

theorem window_step (h : 0 < r.size) : r.window = r.readIndex :: (r.step h).window := by
  obtain ⟨n, hn⟩ : ∃ n, r.size = n + 1 := ⟨r.size - 1, by omega⟩
  have hrest : (r.step h).window = (List.range n).map fun k => r.slotAt (k + 1) := by
    show (List.range (r.size - 1)).map _ = _
    rw [hn, Nat.add_sub_cancel]
    refine map_congr_left fun k _ => ?_
    show ((r.readIndex + 1) % r.capacity + k) % r.capacity = (r.readIndex + (k + 1)) % r.capacity
    rw [Nat.mod_add_mod]
    congr 1
    omega
  rw [hrest]
  unfold window
  rw [hn, range_succ_eq_map, map_cons, map_map, slotAt_zero]
  rfl

/-! ## §3. Items in slots. -/

section Slots

variable {α : Type} {r : Ring} {slots slots' : Nat → Option α} {i : Nat}

def contents (r : Ring) (slots : Nat → Option α) : List α := r.window.filterMap slots

def Full (r : Ring) (slots : Nat → Option α) : Prop := ∀ i, (slots i).isSome = true ↔ i ∈ r.window

theorem Full.length_contents (h : r.Full slots) : (r.contents slots).length = r.size := by
  unfold contents
  rw [length_filterMap_eq_countP, countP_eq_length.mpr fun i hi => (h i).mpr hi]
  unfold window
  rw [length_map, length_range]

theorem Full.mem_contents (h : r.Full slots) (ha : slots i = some a) : a ∈ r.contents slots :=
  mem_filterMap.mpr ⟨i, (h i).mp (by rw [ha]; rfl), ha⟩

theorem contents_congr (h : ∀ i ∈ r.window, slots' i = slots i) : r.contents slots' = r.contents slots :=
  filterMap_congr h

theorem Full.head (h : r.Full slots) (hsize : 0 < r.size) :
    ∃ a, slots r.readIndex = some a ∧ r.contents slots = a :: (r.step hsize).contents slots := by
  have hmem : r.readIndex ∈ r.window := by
    rw [window_step hsize]
    exact (.head _)
  obtain ⟨a, ha⟩ := Option.isSome_iff_exists.mp ((h r.readIndex).mpr hmem)
  refine ⟨a, ha, ?_⟩
  unfold contents
  rw [window_step hsize, filterMap_cons, ha]

/-- What a slot holds after an update: the new value there, the old one elsewhere. -/
theorem update_some {ι : Type} [DecidableEq ι] {f : ι → Option α} {new : Option α} {i j : ι}
    (h : Function.update f i new j = some a) : (j = i ∧ new = some a) ∨ (j ≠ i ∧ f j = some a) := by
  by_cases hj : j = i
  · subst hj
    rw [Function.update_self] at h
    exact .inl ⟨rfl, h⟩
  · rw [Function.update_of_ne hj] at h
    exact .inr ⟨hj, h⟩

/-- **Writing at the write pointer appends.** -/
theorem Full.push (h : r.Full slots) (hroom : r.size < r.capacity) (a : α) :
    (r.advance hroom).Full (Function.update slots r.writeIndex (some a))
      ∧ (r.advance hroom).contents (Function.update slots r.writeIndex (some a))
        = r.contents slots ++ [a] := by
  have hfree : r.writeIndex ∉ r.window := writeIndex_not_mem_window hroom
  refine ⟨fun i => ?_, ?_⟩
  · rw [window_advance, mem_append, mem_singleton]
    by_cases hi : i = r.writeIndex
    · subst hi
      simp
    · rw [Function.update_of_ne hi, h i]
      simp [hi]
  · unfold contents
    rw [window_advance, filterMap_append]
    congr 1
    · refine filterMap_congr fun i hi => ?_
      have hne : i ≠ r.writeIndex := fun heq => hfree (heq ▸ hi)
      exact Function.update_of_ne hne _ _
    · simp

/-- **Emptying the slot at the read pointer drops the first item.** -/
theorem Full.release (h : r.Full slots) (hsize : 0 < r.size) :
    let emptied := Function.update slots r.readIndex none
    r.skip (fun i => (emptied i).isSome) = r.step hsize ∧ (r.step hsize).Full emptied
      ∧ (r.step hsize).contents emptied = (r.step hsize).contents slots := by
  have hnotin : r.readIndex ∉ (r.step hsize).window := by
    have hnodup := r.window_nodup
    rw [window_step hsize] at hnodup
    exact (nodup_cons.mp hnodup).1
  have hfull : (r.step hsize).Full (Function.update slots r.readIndex none) := by
    intro i
    by_cases hi : i = r.readIndex
    · subst hi
      simpa using hnotin
    · rw [Function.update_of_ne hi, h i, window_step hsize, mem_cons]
      simp [hi]
  refine ⟨?_, hfull, ?_⟩
  · rw [skip_step hsize (by simp)]
    refine skip_stays ?_
    -- the next slot is the head of the new window, unless nothing is left
    by_cases hrest : 0 < (r.step hsize).size
    · refine .inr ((hfull _).mpr ?_)
      rw [window_step hrest]
      exact (.head _)
    · exact .inl (by omega)
  · refine contents_congr fun i hi => ?_
    have hne : i ≠ r.readIndex := fun heq => hnotin (heq ▸ hi)
    exact Function.update_of_ne hne _ _

/-- **Rewriting in place what `f` does not see keeps the order of what it sees.** -/
theorem Full.rewrite {β : Type} {f : α → β} (h : r.Full slots)
    (hsame : ∀ i, (slots' i).map f = (slots i).map f) :
    r.Full slots' ∧ (r.contents slots').map f = (r.contents slots).map f := by
  refine ⟨fun i => ?_, ?_⟩
  · rw [← h i, ← Option.isSome_map (f := f), hsame i, Option.isSome_map]
  · unfold contents
    rw [map_filterMap, map_filterMap]
    exact filterMap_congr fun i _ => hsame i

theorem eq_of_filterMap_nodup {γ : Type} {g : Nat → Option γ} {l : List Nat} (h : (l.filterMap g).Nodup)
    {c : γ} (hi : i ∈ l) (hj : j ∈ l) (hgi : g i = some c) (hgj : g j = some c) : i = j := by
  induction l with
  | nil => cases hi
  | cons first rest ih =>
    have hfirst : ∀ k ∈ rest, g first = some c → g k = some c → False := by
      intro k hk hgfirst hgk
      rw [filterMap_cons, hgfirst] at h
      exact (nodup_cons.mp h).1 (mem_filterMap.mpr ⟨k, hk, hgk⟩)
    have hrest : (rest.filterMap g).Nodup := by
      refine h.sublist ?_
      rw [filterMap_cons]
      split
      next => exact .refl _
      next c' _ => exact sublist_cons_self c' _
    rcases mem_cons.mp hi with rfl | hi' <;> rcases mem_cons.mp hj with rfl | hj'
    · rfl
    · exact (hfirst j hj' hgi hgj).elim
    · exact (hfirst i hi' hgj hgi).elim
    · exact ih hrest hi' hj'

theorem Full.slot_inj {β : Type} {f : α → β} (h : r.Full slots)
    (hnodup : ((r.contents slots).map f).Nodup) {a b : α} (hi : slots i = some a) (hj : slots j = some b)
    (hab : f a = f b) : i = j := by
  have hmem : ∀ {k : Nat} {c : α}, slots k = some c → k ∈ r.window := fun hk => (h _).mp (by rw [hk]; rfl)
  unfold contents at hnodup
  rw [map_filterMap] at hnodup
  refine eq_of_filterMap_nodup hnodup (c := f a) (hmem hi) (hmem hj) ?_ ?_
  · rw [hi, Option.map_some]
  · rw [hj, Option.map_some, hab]

end Slots

end Ring

end Foundation
