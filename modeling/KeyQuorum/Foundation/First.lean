/-
  **THE FIRST ENTRY THAT PASSES.**

  A search that stops at its first hit, said without the search: `x` passes,
  and nothing stored before it does.  Unlike `List.find?` the predicate need
  not be decidable.
-/
import Mathlib.Data.List.Basic

namespace Foundation

variable {α : Type} {P : α → Prop} {l m : List α} {x y : α}

/-- `x` is the first entry of `l` with `P`. -/
def FirstIn (P : α → Prop) (l : List α) (x : α) : Prop :=
  ∃ before after, l = before ++ x :: after ∧ P x ∧ ∀ y ∈ before, ¬ P y

theorem FirstIn.mem (h : FirstIn P l x) : x ∈ l := by
  obtain ⟨before, after, rfl, -⟩ := h
  simp

theorem FirstIn.holds (h : FirstIn P l x) : P x := by
  obtain ⟨_, _, -, hx, -⟩ := h
  exact hx

theorem firstIn_cons (hx : P x) : FirstIn P (x :: l) x :=
  ⟨[], l, rfl, hx, nofun⟩

theorem firstIn_iff_find [DecidablePred P] :
    FirstIn P l x ↔ l.find? (fun y => decide (P y)) = some x := by
  rw [List.find?_eq_some_iff_append]
  constructor
  · rintro ⟨before, after, hl, hx, hbefore⟩
    exact ⟨by simpa using hx, before, after, hl, fun y hy => by simpa using hbefore y hy⟩
  · rintro ⟨hx, before, after, hl, hbefore⟩
    exact ⟨before, after, hl, by simpa using hx, fun y hy => by simpa using hbefore y hy⟩

theorem FirstIn.unique (hx : FirstIn P l x) (hy : FirstIn P l y) : x = y := by
  classical
  rw [firstIn_iff_find] at hx hy
  exact Option.mem_unique hx hy

theorem exists_firstIn (hmem : x ∈ l) (hx : P x) : ∃ y, FirstIn P l y := by
  classical
  simp only [firstIn_iff_find]
  exact Option.isSome_iff_exists.mp (List.find?_isSome.mpr ⟨x, hmem, by simpa using hx⟩)

theorem firstIn_append :
    FirstIn P (l ++ m) x ↔ FirstIn P l x ∨ ((∀ y ∈ l, ¬ P y) ∧ FirstIn P m x) := by
  classical
  simp only [firstIn_iff_find, List.find?_append]
  cases hfind : l.find? (fun y => decide (P y)) with
  | none =>
    have hnone : ∀ y ∈ l, ¬ P y := fun y hy => by
      simpa using List.find?_eq_none.mp hfind y hy
    simp only [Option.none_or, reduceCtorEq, false_or]
    exact ⟨fun h => ⟨hnone, h⟩, And.right⟩
  | some z =>
    have hz : z ∈ l ∧ P z :=
      ⟨List.mem_of_find?_eq_some hfind, by simpa using List.find?_some hfind⟩
    exact ⟨.inl, fun h => h.elim id fun h' => absurd hz.2 (h'.1 z hz.1)⟩

theorem firstIn_filter : FirstIn P (l.filter keep) x ↔ FirstIn (fun y => keep y ∧ P y) l x := by
  classical
  rw [firstIn_iff_find, firstIn_iff_find, List.find?_filter]
  simp

/-- Looking a key up once the entries of another are gone. -/
theorem find?_filter_ne {κ : Type} [DecidableEq κ] {key : α → κ} {k other : κ} :
    (l.filter fun a => key a ≠ other).find? (fun a => key a = k)
      = if k = other then none else l.find? fun a => key a = k := by
  rw [List.find?_filter]
  split
  next heq =>
    rw [List.find?_eq_none]
    simp [heq]
  next hne =>
    congr 1
    funext a
    by_cases ha : key a = k <;> simp [ha, hne]

end Foundation
