/-
  Foundation.SortedMap
  **MAPS KEPT IN KEY ORDER.**

  The entries stand by strictly increasing key; the proof is part of the
  map.  Inserting under a key that is taken replaces its value.  A map is
  what inserting its entries one after the other gives, so a list of
  entries written in order reads back as the map it came from.
-/
import Mathlib.Order.Lattice
import Mathlib.Data.List.Pairwise

namespace Foundation

open List

structure SortedMap (κ α : Type) [LinearOrder κ] where
  entries : List (κ × α)
  increasing : entries.Pairwise fun a b => a.1 < b.1

namespace SortedMap

variable {κ α : Type} [LinearOrder κ] {m : SortedMap κ α}

theorem ext_entries {n : SortedMap κ α} (h : m.entries = n.entries) : m = n := by
  cases m
  cases n
  subst h
  rfl

instance [DecidableEq α] : DecidableEq (SortedMap κ α) := fun m n =>
  decidable_of_iff (m.entries = n.entries) ⟨ext_entries, fun h => by rw [h]⟩

def empty : SortedMap κ α := ⟨[], List.Pairwise.nil⟩

def insertEntry (k : κ) (v : α) : List (κ × α) → List (κ × α)
  | [] => [(k, v)]
  | entry :: rest =>
    if k < entry.1 then (k, v) :: entry :: rest
    else if k = entry.1 then (k, v) :: rest
    else entry :: insertEntry k v rest

variable {l : List (κ × α)} {k : κ} {v : α}

theorem mem_insertEntry (h : entry ∈ insertEntry k v l) : entry = (k, v) ∨ entry ∈ l := by
  induction l with
  | nil => exact .inl (mem_singleton.mp h)
  | cons first rest ih =>
    rw [insertEntry] at h
    split at h
    · exact mem_cons.mp h
    · split at h
      · exact (mem_cons.mp h).imp_right (mem_cons_of_mem first)
      · rcases mem_cons.mp h with rfl | h
        · exact .inr (.head _)
        · exact (ih h).imp_right (mem_cons_of_mem first)

theorem insertEntry_increasing (k : κ) (v : α)
    (h : l.Pairwise fun a b => a.1 < b.1) : (insertEntry k v l).Pairwise fun a b => a.1 < b.1 := by
  induction l with
  | nil => exact pairwise_singleton _ _
  | cons first rest ih =>
    obtain ⟨hfirst, hrest⟩ := pairwise_cons.mp h
    rw [insertEntry]
    split
    next hlt =>
      refine pairwise_cons.mpr ⟨fun entry hentry => ?_, h⟩
      rcases mem_cons.mp hentry with rfl | hentry
      · exact hlt
      · exact lt_trans hlt (hfirst entry hentry)
    next hge =>
      split
      next heq => exact pairwise_cons.mpr ⟨fun entry hentry => heq ▸ hfirst entry hentry, hrest⟩
      next hne =>
        refine pairwise_cons.mpr ⟨fun entry hentry => ?_, ih hrest⟩
        rcases mem_insertEntry hentry with rfl | hentry
        · exact lt_of_le_of_ne (not_lt.mp hge) (Ne.symm hne)
        · exact hfirst entry hentry

section

variable (m : SortedMap κ α)

def insert (k : κ) (v : α) : SortedMap κ α :=
  ⟨insertEntry k v m.entries, insertEntry_increasing k v m.increasing⟩

def get? (k : κ) : Option α :=
  (m.entries.find? fun entry => entry.1 = k).map Prod.snd

def contains (k : κ) : Bool := m.entries.any fun entry => entry.1 = k

def keys : List κ := m.entries.map Prod.fst

end

def ofEntries (l : List (κ × α)) : SortedMap κ α :=
  l.foldl (fun m entry => m.insert entry.1 entry.2) empty

/-! ## Keys. -/

theorem mem_keys_insertEntry : k' ∈ (insertEntry k v l).map Prod.fst ↔ k' = k ∨ k' ∈ l.map Prod.fst := by
  induction l with
  | nil => simp [insertEntry]
  | cons first rest ih =>
    rw [insertEntry]
    split
    · simp
    · split
      next heq => simp [heq]
      next => rw [map_cons, mem_cons, ih, map_cons, mem_cons, or_left_comm]

theorem contains_iff : m.contains k ↔ k ∈ m.keys := by
  simp [contains, keys]

theorem keys_nodup (m : SortedMap κ α) : m.keys.Nodup :=
  (pairwise_map.mpr m.increasing).imp ne_of_lt

/-- The keys of a fold, from the keys each of its steps adds. -/
theorem mem_keys_foldl {β : Type} {step : SortedMap κ α → β → SortedMap κ α} {adds : β → κ → Prop}
    (hstep : ∀ m b k, k ∈ (step m b).keys ↔ adds b k ∨ k ∈ m.keys) {bs : List β} :
    k ∈ (bs.foldl step empty).keys ↔ ∃ b ∈ bs, adds b k := by
  have hfold : ∀ bs m, k ∈ (foldl step m bs).keys ↔ (∃ b ∈ bs, adds b k) ∨ k ∈ m.keys := by
    intro bs
    induction bs with
    | nil => simp
    | cons b rest ih =>
      intro m
      rw [foldl_cons, ih, hstep]
      simp only [mem_cons, exists_eq_or_imp, or_assoc, or_left_comm]
  rw [hfold]
  exact or_iff_left not_mem_nil

/-- What holds of the entries each step of a fold adds holds of all. -/
theorem forall_entries_foldl {β : Type} {step : SortedMap κ α → β → SortedMap κ α} {P : κ × α → Prop}
    {bs : List β} (hstep : ∀ m, ∀ b ∈ bs, ∀ entry ∈ (step m b).entries, P entry ∨ entry ∈ m.entries) :
    ∀ entry ∈ (bs.foldl step empty).entries, P entry :=
  foldlRecOn (motive := fun m : SortedMap κ α => ∀ entry ∈ m.entries, P entry) bs step
    (fun _ hentry => absurd hentry not_mem_nil)
    fun m ih b hb entry hentry => (hstep m b hb entry hentry).elim id (ih entry)

/-! ## Entries in order. -/

theorem insertEntry_last (h : ∀ entry ∈ l, entry.1 < k) : insertEntry k v l = l ++ [(k, v)] := by
  induction l with
  | nil => rfl
  | cons first rest ih =>
    have hfirst : first.1 < k := h first (.head _)
    rw [insertEntry, if_neg (lt_asymm hfirst), if_neg (ne_of_gt hfirst),
      ih fun entry hentry => h entry (mem_cons_of_mem first hentry)]
    rfl

theorem foldl_insert_entries (l : List (κ × α)) (m : SortedMap κ α)
    (h : (m.entries ++ l).Pairwise fun a b => a.1 < b.1) :
    (l.foldl (fun m entry => m.insert entry.1 entry.2) m).entries = m.entries ++ l := by
  induction l generalizing m with
  | nil => exact (append_nil m.entries).symm
  | cons entry rest ih =>
    have hbelow : ∀ earlier ∈ m.entries, earlier.1 < entry.1 := fun earlier hearlier =>
      (pairwise_append.mp h).2.2 earlier hearlier entry (.head _)
    have hlast : (m.insert entry.1 entry.2).entries = m.entries ++ [entry] := insertEntry_last hbelow
    have happend : m.entries ++ entry :: rest = (m.insert entry.1 entry.2).entries ++ rest := by
      rw [hlast, append_assoc]
      rfl
    rw [foldl_cons, ih _ (happend ▸ h), happend]

/-- **A map is what its entries build.** -/
theorem ofEntries_entries (m : SortedMap κ α) : ofEntries m.entries = m := by
  refine ext_entries ?_
  have h := foldl_insert_entries m.entries empty m.increasing
  exact h

end SortedMap

end Foundation
