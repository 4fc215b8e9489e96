/-
  Foundation.Table
  **TABLES WITH A PRIMARY KEY.**

  A table is a list of rows in which no key occurs twice; the proof is part
  of the table.  Rows are looked up by key, added under a new key, and
  changed in place without touching their key.
-/
import KeyQuorum.Foundation.Bytes
import Mathlib.Data.List.Nodup

namespace Foundation

open List

structure Table (α κ : Type) (key : α → κ) where
  rows : List α
  keyed : (rows.map key).Nodup

namespace Table

variable {α κ : Type} {key : α → κ}

instance [DecidableEq α] : DecidableEq (Table α κ key) := fun t u =>
  decidable_of_iff (t.rows = u.rows) ⟨fun h => by cases t; cases u; simp_all, fun h => by rw [h]⟩

def empty : Table α κ key := ⟨[], nodup_nil⟩

section Lookup

variable [DecidableEq κ]

/-- The row with a key. -/
def find? (t : Table α κ key) (k : κ) : Option α := t.rows.find? fun a => key a = k

def add (t : Table α κ key) (a : α) : Table α κ key :=
  if h : key a ∈ t.rows.map key then t
  else ⟨t.rows ++ [a], by
    rw [map_append, nodup_append]
    refine ⟨t.keyed, by simp, fun k hk k' hk' => ?_⟩
    rw [map_singleton, mem_singleton] at hk'
    exact fun heq => h (hk' ▸ heq ▸ hk)⟩

theorem map_key_ite (rows : List α) {k : κ} {f : α → α} (hf : ∀ a, key a = k → key (f a) = k) :
    (rows.map fun a => if key a = k then f a else a).map key = rows.map key := by
  rw [map_map]
  refine map_congr_left fun a _ => ?_
  show key (if key a = k then f a else a) = key a
  split
  next heq => exact (hf a heq).trans heq.symm
  next => rfl

def change (t : Table α κ key) (k : κ) (f : α → α) (hf : ∀ a, key (f a) = key a) : Table α κ key :=
  ⟨t.rows.map fun a => if key a = k then f a else a, by
    rw [map_key_ite t.rows fun a ha => (hf a).trans ha]
    exact t.keyed⟩

def put (t : Table α κ key) (a : α) : Table α κ key :=
  ⟨t.rows.map fun b => if key b = key a then a else b, by
    rw [map_key_ite t.rows fun _ _ => rfl]
    exact t.keyed⟩

variable {t : Table α κ key} {k k' : κ} {a : α} {f : α → α}

theorem find?_some (h : t.find? k = some a) : a ∈ t.rows ∧ key a = k :=
  ⟨mem_of_find?_eq_some h, by simpa using List.find?_some h⟩

theorem find?_eq_none : t.find? k = none ↔ k ∉ t.rows.map key := by
  unfold find?
  rw [List.find?_eq_none]
  simp

theorem find?_of_mem (h : a ∈ t.rows) : t.find? (key a) = some a := by
  cases hfind : t.find? (key a) with
  | none => exact absurd (mem_map_of_mem h) (find?_eq_none.mp hfind)
  | some b =>
    obtain ⟨hb, hkey⟩ := find?_some hfind
    rw [inj_on_of_nodup_map t.keyed hb h hkey]

theorem rows_add (hnew : t.find? (key a) = none) : (t.add a).rows = t.rows ++ [a] := by
  unfold add
  rw [dif_neg (find?_eq_none.mp hnew)]

theorem find?_add (hnew : t.find? (key a) = none) :
    (t.add a).find? k = if k = key a then some a else t.find? k := by
  show (t.add a).rows.find? _ = _
  rw [rows_add hnew, find?_append]
  by_cases hk : k = key a
  · subst hk
    have hnone : (t.rows.find? fun b => decide (key b = key a)) = none := hnew
    rw [hnone]
    simp
  · rw [if_neg hk]
    show _ = t.rows.find? _
    cases t.rows.find? fun b => decide (key b = k) with
    | some b => rfl
    | none => simp [Ne.symm hk]

theorem find?_change (hf : ∀ a, key (f a) = key a) :
    (t.change k f hf).find? k' = if k' = k then (t.find? k').map f else t.find? k' :=
  find?_map_ite fun a ha => (hf a).trans ha

theorem find?_put : (t.put a).find? k = if k = key a then (t.find? k).map fun _ => a else t.find? k :=
  find?_map_ite fun _ _ => rfl

theorem find?_add_of_some (hnew : t.find? (key a) = none) (h : t.find? k = some b) :
    (t.add a).find? k = some b := by
  rw [find?_add hnew, if_neg]
  · exact h
  · rintro rfl
    rw [hnew] at h
    cases h

theorem find?_put_of_some (h : t.find? k = some b) :
    (t.put a).find? k = some (if k = key a then a else b) := by
  rw [find?_put, h]
  split <;> rfl

theorem exists_find?_add (hnew : t.find? (key a) = none) {P : α → Prop} :
    (∃ b, (t.add a).find? k = some b ∧ P b) ↔ (∃ b, t.find? k = some b ∧ P b) ∨ k = key a ∧ P a := by
  rw [find?_add hnew]
  by_cases hk : k = key a
  · simp [hk, hnew]
  · simp [hk]

theorem exists_find?_put (hold : t.find? (key a) = some old) {P : α → Prop} :
    (∃ b, (t.put a).find? k = some b ∧ P b)
      ↔ if k = key a then P a else ∃ b, t.find? k = some b ∧ P b := by
  rw [find?_put]
  by_cases hk : k = key a
  · simp [hk, hold]
  · simp [hk]

theorem find?_put_self (h : t.find? k = some b) (hkey : key a = k) : (t.put a).find? k = some a := by
  rw [find?_put, if_pos hkey.symm, h]
  rfl

theorem find?_put_ne (hkey : k ≠ key a) : (t.put a).find? k = t.find? k := by
  rw [find?_put, if_neg hkey]

theorem find?_put_some (h : (t.put a).find? k = some b) : b = a ∨ t.find? k = some b := by
  rw [find?_put] at h
  split at h
  next =>
    obtain ⟨_, -, rfl⟩ := Option.map_eq_some_iff.mp h
    exact .inl rfl
  next => exact .inr h

theorem change_eq_self (hf : ∀ a, key (f a) = key a) (h : ∀ a, t.find? k = some a → f a = a) :
    t.change k f hf = t := by
  have hrows : (t.rows.map fun a => if key a = k then f a else a) = t.rows := by
    refine (map_congr_left fun a ha => ?_).trans (map_id t.rows)
    show (if key a = k then f a else a) = a
    split
    next hkey =>
      subst hkey
      exact h a (find?_of_mem ha)
    next => rfl
  cases t with
  | mk rows keyed =>
    unfold change
    congr 1

end Lookup

end Table

end Foundation
