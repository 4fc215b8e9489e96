/-
  Foundation.Serial
  **NUMBERED ROWS.**

  A table whose rows carry a number, from one on, and a key.  Rows are kept in
  the order of their numbers and no key occurs twice; the proof is part of
  the table.  A new row is numbered after the largest number in use, so a number is used
  again once the rows from it on are deleted.
-/
import Mathlib.Data.List.MinMax
import Mathlib.Data.List.Nodup

namespace Foundation

open List

structure Serial (α κ : Type) (num : α → Nat) (key : α → κ) where
  rows : List α
  ordered : rows.Pairwise fun a b => num a < num b ∧ key a ≠ key b
  positive : ∀ a ∈ rows, 0 < num a

namespace Serial

variable {α κ : Type} {num : α → Nat} {key : α → κ} {t : Serial α κ num key} {a b : α}

instance [DecidableEq α] : DecidableEq (Serial α κ num key) := fun t u =>
  decidable_of_iff (t.rows = u.rows) ⟨fun h => by cases t; cases u; simp_all, fun h => by rw [h]⟩

def empty : Serial α κ num key := ⟨[], List.Pairwise.nil, fun _ h => absurd h not_mem_nil⟩

def next (t : Serial α κ num key) : Nat := (t.rows.map num).foldr max 0 + 1

def find? [DecidableEq κ] (t : Serial α κ num key) (k : κ) : Option α := t.rows.find? fun a => key a = k

/-- Add a row; one whose key is taken, or that is not numbered after the others, is ignored. -/
def insert [DecidableEq κ] (t : Serial α κ num key) (a : α) : Serial α κ num key :=
  if h : 0 < num a ∧ ∀ b ∈ t.rows, num b < num a ∧ key b ≠ key a then
    ⟨t.rows ++ [a], pairwise_append.mpr ⟨t.ordered, pairwise_singleton _ _, fun b hb c hc => by
        rw [mem_singleton.mp hc]
        exact h.2 b hb⟩,
      fun b hb => by
        rcases mem_append.mp hb with hold | hnew
        · exact t.positive b hold
        · rw [mem_singleton.mp hnew]
          exact h.1⟩
  else t

def delete (t : Serial α κ num key) (gone : α → Bool) : Serial α κ num key :=
  ⟨t.rows.filter fun a => !gone a, t.ordered.filter _, fun a ha => t.positive a (mem_filter.mp ha).1⟩

def update (t : Serial α κ num key) (f : α → α) (hf : ∀ a, num (f a) = num a ∧ key (f a) = key a) :
    Serial α κ num key :=
  ⟨t.rows.map f, pairwise_map.mpr <| t.ordered.imp fun {a b} h => by
      rw [(hf a).1, (hf a).2, (hf b).1, (hf b).2]
      exact h,
    fun b hb => by
      obtain ⟨a, ha, rfl⟩ := mem_map.mp hb
      rw [(hf a).1]
      exact t.positive a ha⟩

theorem lt_next (h : a ∈ t.rows) : num a < t.next :=
  Nat.lt_succ_of_le (List.le_max_of_le' 0 (mem_map_of_mem h) le_rfl)

theorem eq_of_num (ha : a ∈ t.rows) (hb : b ∈ t.rows) (h : num a = num b) : a = b := by
  have hnodup : (t.rows.map num).Nodup :=
    pairwise_map.mpr (t.ordered.imp fun {a b} h => Nat.ne_of_lt h.1)
  exact inj_on_of_nodup_map hnodup ha hb h

theorem eq_of_key (ha : a ∈ t.rows) (hb : b ∈ t.rows) (h : key a = key b) : a = b := by
  have hnodup : (t.rows.map key).Nodup := pairwise_map.mpr (t.ordered.imp fun {a b} h => h.2)
  exact inj_on_of_nodup_map hnodup ha hb h

theorem mem_delete : a ∈ (t.delete gone).rows ↔ a ∈ t.rows ∧ gone a = false := by
  show a ∈ t.rows.filter _ ↔ _
  rw [mem_filter, Bool.not_eq_true']

section Keys

variable [DecidableEq κ]

theorem find?_some (h : t.find? k = some a) : a ∈ t.rows ∧ key a = k :=
  ⟨mem_of_find?_eq_some h, by simpa using List.find?_some h⟩

theorem find?_of_mem (h : a ∈ t.rows) : t.find? (key a) = some a := by
  cases hfound : t.find? (key a) with
  | none => exact absurd (List.find?_eq_none.mp hfound a h) (by simp)
  | some b =>
    obtain ⟨hmem, hkey⟩ := find?_some hfound
    rw [eq_of_key hmem h hkey]

theorem rows_insert (hnum : num a = t.next) (hnew : t.find? (key a) = none) :
    (t.insert a).rows = t.rows ++ [a] := by
  unfold insert
  rw [dif_pos]
  refine ⟨hnum ▸ Nat.succ_pos _, fun b hb => ⟨hnum ▸ lt_next hb, fun hkey => ?_⟩⟩
  rw [← hkey, find?_of_mem hb] at hnew
  cases hnew

end Keys

end Serial

end Foundation
