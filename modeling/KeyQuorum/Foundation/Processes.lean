/-
  Foundation.Processes
  **PROCESSES THAT SHARE A STATE.**

  Each process has a local state and runs one step after the other on what
  is shared; the steps of different processes interleave in any order.
-/
import KeyQuorum.Foundation.Runs
import Mathlib.Logic.Function.Basic

namespace Foundation

open List

structure Processes (ι S L : Type) where
  shared : S
  locals : ι → L

namespace Processes

variable {ι κ S L A : Type} [DecidableEq ι] [DecidableEq κ] (step : A → S → L → S × L)

/-- One step of one process. -/
def exec (w : Processes ι S L) (action : ι × A) : Processes ι S L :=
  let next := step action.2 w.shared (w.locals action.1)
  ⟨next.1, Function.update w.locals action.1 next.2⟩

variable {step} {f : κ → ι}

/-- What some of the processes see. -/
def view (f : κ → ι) (w : Processes ι S L) : Processes κ S L := ⟨w.shared, w.locals ∘ f⟩

/-- **A run of some of the processes** is a run of all. -/
theorem run_view (hf : f.Injective) (w : Processes ι S L) (actions : List (κ × A)) :
    (Runs.run (exec step) w (actions.map (Prod.map f id))).view f = Runs.run (exec step) (w.view f) actions := by
  unfold Runs.run
  rw [foldl_map]
  refine (foldl_hom (view f) fun w action => ?_).symm
  simp only [exec, view, Prod.map_fst, Prod.map_snd, id_eq, Function.comp_apply,
    Function.update_comp_eq_of_injective _ hf]

/-- **One process alone** keeps what each of its steps keeps. -/
theorem run_alone [Subsingleton ι] {I : S → L → Prop}
    (hstep : ∀ action s l, I s l → I (step action s l).1 (step action s l).2) {w : Processes ι S L}
    (h : ∃ l, I w.shared l ∧ ∀ process, w.locals process = l) (actions : List (ι × A)) :
    ∃ l, I (Runs.run (exec step) w actions).shared l := by
  induction actions generalizing w with
  | nil => exact h.imp fun _ h => h.1
  | cons action rest ih =>
    obtain ⟨l, hl, hlocals⟩ := h
    refine ih ⟨_, hstep action.2 _ _ (hlocals action.1 ▸ hl), fun process => ?_⟩
    rw [Subsingleton.elim process action.1]
    exact Function.update_self ..

end Processes

end Foundation
