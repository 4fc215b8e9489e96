/-
  Foundation.Fifo
  **A BOUNDED QUEUE WITH CONFIRMED DELIVERY.**

  What a queue of letters is for, in its own terms: items wait in order, a
  delivery of an item may succeed any number of times, an item leaves only
  from the front, and only because a delivery of it succeeded or because it
  was dropped.  The log says what happened, in order.
-/
import Mathlib.Data.List.Nodup

namespace Foundation

inductive Fifo.Entry (α : Type) where
  | queued (a : α)
  | sent (a : α)
  | dropped (a : α)

/-- A bounded queue, the items a delivery of which succeeded, and what happened so far. -/
structure Fifo (α : Type) where
  capacity : Nat
  held : List α
  delivered : List α
  log : List (Fifo.Entry α)

namespace Fifo

variable {q : Fifo α}

def Entry.queued? : Entry α → Option α
  | .queued a => some a
  | .sent _ | .dropped _ => none

def Entry.left? : Entry α → Option α
  | .queued _ => none
  | .sent a | .dropped a => some a

def Entry.sent? : Entry α → Option α
  | .sent a => some a
  | .queued _ | .dropped _ => none

def new (capacity : Nat) : Fifo α := ⟨capacity, [], [], []⟩

def allQueued (q : Fifo α) : List α := q.log.filterMap Entry.queued?

def allLeft (q : Fifo α) : List α := q.log.filterMap Entry.left?

def allSent (q : Fifo α) : List α := q.log.filterMap Entry.sent?

inductive Step : Fifo α → Fifo α → Prop
  | queue (q : Fifo α) (a : α) (room : q.held.length < q.capacity) :
      Step q { q with held := q.held ++ [a], log := q.log ++ [.queued a] }
  | deliver (q : Fifo α) (a : α) : Step q { q with delivered := q.delivered ++ [a] }
  | send (q : Fifo α) (a : α) (rest : List α) (first : q.held = a :: rest) (delivered : a ∈ q.delivered) :
      Step q { q with held := rest, log := q.log ++ [.sent a] }
  | drop (q : Fifo α) (a : α) (rest : List α) (first : q.held = a :: rest) :
      Step q { q with held := rest, log := q.log ++ [.dropped a] }
  | resize (q : Fifo α) (capacity : Nat) (idle : q.held = []) : Step q { q with capacity }
  | stay (q : Fifo α) : Step q q

/-- First in, first out, within the capacity, and sent only if delivered. -/
structure Lawful (q : Fifo α) : Prop where
  order : q.allQueued = q.allLeft ++ q.held
  bounded : q.held.length ≤ q.capacity
  delivered : ∀ a ∈ q.allSent, a ∈ q.delivered

theorem lawful_new (capacity : Nat) : (new capacity : Fifo α).Lawful where
  order := rfl
  bounded := Nat.zero_le _
  delivered _ h := absurd h (by simp [allSent, new])

/-- **Every step keeps the laws of the queue.** -/
theorem Step.lawful (hstep : Step q q') (h : q.Lawful) : q'.Lawful := by
  have horder := h.order
  have hbounded := h.bounded
  have hdelivered := h.delivered
  unfold allQueued allLeft at horder
  unfold allSent at hdelivered
  cases hstep with
  | queue a room =>
    refine ⟨?_, ?_, ?_⟩
    · simp [allQueued, allLeft, Entry.queued?, Entry.left?, horder]
    · show (q.held ++ [a]).length ≤ q.capacity
      rw [List.length_append]
      exact room
    · simpa [allSent, Entry.sent?] using hdelivered
  | deliver =>
    refine ⟨horder, h.bounded, fun b hb => ?_⟩
    exact List.mem_append_left _ (hdelivered b hb)
  | send a rest first delivered =>
    refine ⟨?_, ?_, ?_⟩
    · simp [allQueued, allLeft, Entry.queued?, Entry.left?, horder, first]
    · rw [first] at hbounded
      exact Nat.le_of_succ_le hbounded
    · intro b hb
      simp only [allSent, List.filterMap_append, List.mem_append] at hb
      rcases hb with hb | hb
      · exact hdelivered b hb
      · obtain rfl : b = a := by simpa [Entry.sent?] using hb
        exact delivered
  | drop a rest first =>
    refine ⟨?_, ?_, ?_⟩
    · simp [allQueued, allLeft, Entry.queued?, Entry.left?, horder, first]
    · rw [first] at hbounded
      exact Nat.le_of_succ_le hbounded
    · simpa [allSent, Entry.sent?] using hdelivered
  | resize capacity idle => exact ⟨horder, by simp [idle], hdelivered⟩
  | stay => exact h

end Fifo

end Foundation
