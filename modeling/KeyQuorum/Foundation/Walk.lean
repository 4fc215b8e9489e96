/-
  Foundation.Walk
  **WALKING A TREE WITH A STACK.**

  The loop takes the last node off its queue, appends the node's children,
  and keeps the node.  Nothing remembers which nodes were seen, so on a
  graph with a cycle the loop does not end; the number of rounds is a
  parameter, and `none` is a loop that is still running.
-/
import Mathlib.Data.List.Basic

namespace Foundation.Walk

open List

variable {α : Type} (children : α → List α)

/-- The loop: rounds left, the queue with its end first, and what was taken off it. -/
def loop : Nat → List α → List α → Option (List α)
  | _, [], out => some out
  | 0, _ :: _, _ => none
  | rounds + 1, current :: queue, out =>
    loop rounds ((children current).reverse ++ queue) (out ++ [current])

variable {children}

theorem loop_forall {P : α → Prop} (hchild : ∀ a, P a → ∀ b ∈ children a, P b) {rounds : Nat}
    {queue out result : List α} (h : loop children rounds queue out = some result)
    (hqueue : ∀ a ∈ queue, P a) (hout : ∀ a ∈ out, P a) : ∀ a ∈ result, P a := by
  induction rounds generalizing queue out with
  | zero =>
    cases queue with
    | nil =>
      cases h
      exact hout
    | cons current queue => exact absurd h (by simp [loop])
  | succ rounds ih =>
    cases queue with
    | nil =>
      cases h
      exact hout
    | cons current queue =>
      have hcurrent := hqueue current (.head _)
      refine ih h ?_ ?_
      · intro a ha
        rcases mem_append.mp ha with ha | ha
        · exact hchild current hcurrent a (mem_reverse.mp ha)
        · exact hqueue a (mem_cons_of_mem current ha)
      · intro a ha
        rcases mem_append.mp ha with ha | ha
        · exact hout a ha
        · rw [mem_singleton.mp ha]
          exact hcurrent

/-- The loop has dealt with a part of its queue once only the rest is left. -/
def Clears (children : α → List α) (front : List α) : Prop :=
  ∃ rounds kept, ∀ more queue out, loop children (rounds + more) (front ++ queue) out
    = loop children more queue (out ++ kept)

theorem Clears.nil : Clears children [] := ⟨0, [], fun more queue out => by simp⟩

theorem Clears.append (hfront : Clears children front) (hrest : Clears children rest) :
    Clears children (front ++ rest) := by
  obtain ⟨rounds, kept, h⟩ := hfront
  obtain ⟨rounds', kept', h'⟩ := hrest
  refine ⟨rounds + rounds', kept ++ kept', fun more queue out => ?_⟩
  rw [append_assoc, Nat.add_assoc, h, h', append_assoc]

theorem Clears.of_forall (h : ∀ a ∈ front, Clears children [a]) : Clears children front := by
  induction front with
  | nil => exact Clears.nil
  | cons a front ih =>
    exact (h a (.head _)).append (ih fun b hb => h b (mem_cons_of_mem a hb))

theorem Clears.singleton (h : Clears children (children a).reverse) : Clears children [a] := by
  obtain ⟨rounds, kept, h⟩ := h
  refine ⟨rounds + 1, a :: kept, fun more queue out => ?_⟩
  have hround : rounds + 1 + more = (rounds + more) + 1 := by omega
  rw [hround]
  show loop children (rounds + more) ((children a).reverse ++ queue) (out ++ [a]) = _
  rw [h]
  simp

/-- **A ranked loop ends.** -/
theorem loop_ends (rank : α → Nat) (bound : Nat)
    (hrank : ∀ a, ∀ b ∈ children a, rank a < rank b ∧ rank b ≤ bound) (queue out : List α) :
    ∃ rounds result, loop children rounds queue out = some result := by
  -- the higher a node, the fewer levels are above it
  have hnode : ∀ levels a, bound - rank a ≤ levels → Clears children [a] := by
    intro levels
    induction levels with
    | zero =>
      intro a ha
      refine Clears.singleton (Clears.of_forall fun b hb => ?_)
      have := hrank a b (mem_reverse.mp hb)
      omega
    | succ levels ih =>
      intro a ha
      refine Clears.singleton (Clears.of_forall fun b hb => ih b ?_)
      have := hrank a b (mem_reverse.mp hb)
      omega
  obtain ⟨rounds, kept, h⟩ := Clears.of_forall fun a (_ : a ∈ queue) => hnode _ a (Nat.le_refl _)
  refine ⟨rounds, out ++ kept, ?_⟩
  have hclear := h 0 [] out
  rw [append_nil] at hclear
  exact hclear

theorem loop_cycle (h : children a = [a]) (rounds : Nat) (out : List α) :
    loop children rounds [a] out = none := by
  induction rounds generalizing out with
  | zero => rfl
  | succ rounds ih =>
    unfold loop
    rw [h]
    exact ih (out ++ [a])

end Foundation.Walk
