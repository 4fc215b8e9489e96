/-
  Foundation.Runs
  **RUNS OF A SYSTEM.**

  A run is a list of actions carried out one after the other.  `Along P`
  says that every action meets a condition in the state it is carried out
  in.  An invariant that every such action keeps holds in every state a run
  passes through, the states between two actions included; a property that
  every such action keeps lasts from the state it first holds in; a relation
  to an abstract system that every such action keeps gives a run of that
  system beside it.
-/
import Mathlib.Data.List.Basic

namespace Foundation.Runs

open List

variable {σ α : Type} (exec : σ → α → σ)

/-- The state after a list of actions. -/
def run (s : σ) (actions : List α) : σ := actions.foldl exec s

/-- Every action of a run meets `P` in the state it is taken in. -/
def Along (P : σ → α → Prop) : σ → List α → Prop
  | _, [] => True
  | s, a :: rest => P s a ∧ Along P (exec s a) rest

instance Along.decide (P : σ → α → Prop) [∀ s a, Decidable (P s a)] :
    ∀ s actions, Decidable (Along exec P s actions)
  | _, [] => .isTrue trivial
  | s, a :: rest => @instDecidableAnd _ _ _ (Along.decide P (exec s a) rest)

variable {exec} {P : σ → α → Prop} {I : σ → Prop} {s : σ} {actions : List α}

theorem Along.take (h : Along exec P s actions) (n : Nat) :
    Along exec P s (actions.take n) := by
  induction actions generalizing s n with
  | nil => rwa [take_nil]
  | cons a rest ih =>
    cases n with
    | zero => trivial
    | succ n => exact ⟨h.1, ih h.2 n⟩

section

variable (h : Along exec P s actions) (hstep : ∀ s a, I s → P s a → I (exec s a)) (hs : I s)

include h hstep hs

/-- **Invariants of runs.** -/
theorem Along.invariant : I (run exec s actions) := by
  induction actions generalizing s with
  | nil => exact hs
  | cons a rest ih => exact ih h.2 (hstep s a hs h.1)

theorem Along.always (n : Nat) : I (run exec s (actions.take n)) :=
  (h.take n).invariant hstep hs

end

theorem run_take_succ (h : actions[n]? = some a) :
    run exec s (actions.take (n + 1)) = exec (run exec s (actions.take n)) a := by
  rw [take_add_one, h, Option.toList_some, run, foldl_append]
  rfl

theorem Along.drop (h : Along exec P s actions) (n : Nat) :
    Along exec P (run exec s (actions.take n)) (actions.drop n) := by
  induction actions generalizing s n with
  | nil =>
    rw [drop_nil]
    trivial
  | cons a rest ih =>
    cases n with
    | zero => exact h
    | succ n => exact ih h.2 n

/-- **What lasts.**  A property that every action keeps holds from the state it first holds in. -/
theorem Along.lasts {Q : σ → Prop} (hstep : ∀ s a, I s → P s a → I (exec s a))
    (hkeep : ∀ s a, I s → P s a → Q s → Q (exec s a))
    (h : Along exec P s actions) (hs : I s) {n m : Nat} (hn : Q (run exec s (actions.take n))) (hm : n ≤ m) :
    Q (run exec s (actions.take m)) := by
  obtain ⟨i, rfl⟩ := Nat.exists_eq_add_of_le hm
  have hrest : Along exec P (run exec s (actions.take n)) ((actions.drop n).take i) := (h.drop n).take i
  have hboth : ∀ s a, I s ∧ Q s → P s a → I (exec s a) ∧ Q (exec s a) :=
    fun s a hsa ha => ⟨hstep s a hsa.1 ha, hkeep s a hsa.1 ha hsa.2⟩
  rw [take_add, run, foldl_append]
  exact (hrest.invariant hboth ⟨h.always hstep hs n, hn⟩).2

/-- **Simulation.**  If every action is matched by a step of an abstract system, the run is matched by a
run of that system. -/
theorem Along.simulates {τ : Type} {R : σ → τ → Prop} {Step : τ → τ → Prop}
    (hstep : ∀ s a t, R s t → P s a → ∃ t', Step t t' ∧ R (exec s a) t')
    (h : Along exec P s actions) {t : τ} (ht : R s t) :
    ∃ trace : Nat → τ, trace 0 = t ∧ (∀ n ≤ actions.length, R (run exec s (actions.take n)) (trace n))
      ∧ ∀ n < actions.length, Step (trace n) (trace (n + 1)) := by
  induction actions generalizing s t with
  | nil =>
    refine ⟨fun _ => t, rfl, fun n _ => ?_, fun n hn => absurd hn (Nat.not_lt_zero n)⟩
    rw [take_nil]
    exact ht
  | cons a rest ih =>
    obtain ⟨t', hfirst, ht'⟩ := hstep s a t ht h.1
    obtain ⟨trace, hzero, hrel, hsteps⟩ := ih h.2 ht'
    refine ⟨fun n => Nat.casesOn n t trace, rfl, fun n hn => ?_, fun n hn => ?_⟩
    · cases n with
      | zero => exact ht
      | succ n => exact hrel n (Nat.le_of_succ_le_succ hn)
    · cases n with
      | zero =>
        show Step t (trace 0)
        rw [hzero]
        exact hfirst
      | succ n => exact hsteps n (Nat.lt_of_succ_lt_succ hn)

end Foundation.Runs
