/-
  Foundation.Power
  **OPERATIONS THAT THE POWER CAN CUT SHORT.**

  A program changes durable state by single writes, each of which happens
  or does not: one statement, one committed transaction, one file.  The
  power may fail before any of them.  A run is therefore given the number
  of writes it may still make, after which it stops; what was written
  stays.  `none` is the run that is not cut short.

  `Ends` says what a run can leave wherever it is cut, `Returns` what it
  leaves with enough power; both have one rule for each way to build a run.
-/
import KeyQuorum.Foundation.Op

namespace Foundation

variable {σ τ ε α β : Type}

/-! ## §1. Runs. -/

structure Powered (σ : Type) where
  state : σ
  left : Option Nat

/-- An operation on durable state; the error `none` is the power failing. -/
abbrev Run (σ ε α : Type) : Type := Op (Powered σ) (Option ε) α

namespace Run

def look : Run σ ε σ := fun p => (.ok p.state, p)

def check (x : Except ε α) : Run σ ε α := fun p => (x.mapError some, p)

/-- Continue only when `c` holds. -/
def require (c : Bool) (e : ε) : Run σ ε Unit := check (if c then .ok () else .error e)

def hang : Run σ ε α := fun p => (.error none, p)

def spend : Option Nat → Option (Option Nat)
  | none => some none
  | some 0 => none
  | some (n + 1) => some (some n)

/-- A transaction: nothing is written if it fails, everything in one write otherwise. -/
def commit (m : Op σ ε α) : Run σ ε α := fun p =>
  match m p.state with
  | (.error e, _) => (.error (some e), p)
  | (.ok a, s) =>
    match spend p.left with
    | none => (.error none, p)
    | some left => (.ok a, ⟨s, left⟩)

/-- Run `m` only when `c` holds. -/
def when (c : Bool) (m : Run σ ε Unit) : Run σ ε Unit := if c then m else pure ()

def ignore (m : Run σ ε α) : Run σ ε Unit := fun p =>
  match m p with
  | (.ok _, q) => (.ok (), q)
  | (.error (some _), q) => (.ok (), q)
  | (.error none, q) => (.error none, q)

/-- Go on with `handler` after an error, but not without power. -/
def rescue (m : Run σ ε α) (handler : ε → Run σ ε α) : Run σ ε α := fun p =>
  match m p with
  | (.error (some e), q) => handler e q
  | (.error none, q) => (.error none, q)
  | (.ok a, q) => (.ok a, q)

/-- Run `m` on a part of the state. -/
def on (get : σ → τ) (put : σ → τ → σ) (m : Run τ ε α) : Run σ ε α := fun p =>
  ((m ⟨get p.state, p.left⟩).1,
    ⟨put p.state (m ⟨get p.state, p.left⟩).2.state, (m ⟨get p.state, p.left⟩).2.left⟩)

def after (m : Run σ ε α) (left : Option Nat) (s : σ) : σ := (m ⟨s, left⟩).2.state

/-! ## §2. What a run can leave, wherever it is cut. -/

/-- `P` holds when `m` returns, `Q` when it fails or is cut short. -/
def Ends (m : Run σ ε α) (s : σ) (P : α → σ → Prop) (Q : σ → Prop) : Prop :=
  ∀ left, match m ⟨s, left⟩ with
    | (.ok a, q) => P a q.state
    | (.error _, q) => Q q.state

variable {e : ε} {t : τ}

section Ends

variable {m : Run σ ε α} {s : σ} {P : α → σ → Prop} {Q : σ → Prop}

theorem Ends.mono (h : Ends m s P Q) (hP : ∀ a t, P a t → P' a t) (hQ : ∀ t, Q t → Q' t) :
    Ends m s P' Q' := by
  intro left
  have hleft := h left
  split at hleft <;> next heq => first | exact hP _ _ hleft | exact hQ _ hleft

theorem Ends.and (h : Ends m s P Q) (h' : Ends m s P' Q') :
    Ends m s (fun a t => P a t ∧ P' a t) fun t => Q t ∧ Q' t := by
  intro left
  have hleft := h left
  have hleft' := h' left
  split at hleft <;> next heq =>
    rw [heq] at hleft'
    exact ⟨hleft, hleft'⟩

theorem Ends.after (h : Ends m s (fun _ => R) R) (left : Option Nat) : R (m.after left s) := by
  have hleft := h left
  unfold Run.after
  split at hleft <;> next heq => rwa [heq]

variable {a : α} {x : Except ε α} {op : Op σ ε α} {c : Bool} {f : α → Run σ ε β} {put : τ → σ → τ}
  {get : τ → σ}

theorem Ends.of_ok (h : Ends m s P Q) (hrun : m ⟨s, left⟩ = (.ok a, q)) : P a q.state := by
  have hleft := h left
  rwa [hrun] at hleft

theorem Ends.pure (h : P a s) : Ends (Pure.pure a : Run σ ε α) s P Q := fun _ => h

theorem Ends.hang (h : Q s) : Ends (Run.hang : Run σ ε α) s P Q := fun _ => h

theorem Ends.check (hQ : Q s) (h : ∀ a, x = .ok a → P a s) :
    Ends (Run.check x : Run σ ε α) s P Q := by
  intro left
  cases x with
  | error e => exact hQ
  | ok a => exact h a rfl

theorem Ends.commit (hQ : Q s) (h : ∀ a t, op s = (.ok a, t) → P a t) :
    Ends (Run.commit op) s P Q := by
  intro left
  cases hop : op s with
  | mk result t =>
    cases result with
    | error e =>
      simp only [Run.commit, hop]
      exact hQ
    | ok a =>
      simp only [Run.commit, hop]
      cases Run.spend left with
      | none => exact hQ
      | some left => exact h a t hop

theorem Ends.when {m : Run σ ε Unit} {P : Unit → σ → Prop} (hm : c → Ends m s P Q)
    (hskip : c = false → P () s) : Ends (Run.when c m) s P Q := by
  cases c with
  | true => exact hm rfl
  | false => exact .pure (hskip rfl)

theorem Ends.bind {P : β → σ → Prop} (hm : Ends m s M Q) (hf : ∀ a t, M a t → Ends (f a) t P Q) :
    Ends (m >>= f) s P Q := by
  intro left
  have hleft := hm left
  rw [Op.bind_apply]
  cases hrun : m ⟨s, left⟩ with
  | mk result q =>
    rw [hrun] at hleft
    cases result with
    | error e => exact hleft
    | ok a => exact hf a q.state hleft q.left

theorem Ends.look_bind {f : σ → Run σ ε β} {P : β → σ → Prop} (hf : Ends (f s) s P Q) :
    Ends (Run.look >>= f) s P Q := fun left => hf left

theorem Ends.check_bind {P : β → σ → Prop} (hQ : Q s)
    (hf : ∀ a, x = .ok a → Ends (f a) s P Q) : Ends (Run.check x >>= f) s P Q :=
  .bind (.check (P := fun a t => x = .ok a ∧ t = s) hQ fun _ hx => ⟨hx, rfl⟩)
    fun a _ h => h.2 ▸ hf a h.1

theorem Ends.pass_bind {P : β → σ → Prop} (hx : x = .ok a) (hf : Ends (f a) s P Q) :
    Ends (Run.check x >>= f) s P Q := by
  subst hx
  exact hf

theorem Ends.require_bind {f : Unit → Run σ ε β} {P : β → σ → Prop} (hQ : Q s)
    (hf : c → Ends (f ()) s P Q) : Ends (Run.require c e >>= f) s P Q := by
  refine .check_bind hQ fun u hc => hf ?_
  cases c with
  | false => cases hc
  | true => rfl

theorem Ends.ignore_of_error {P : Unit → σ → Prop} (h : Ends m s (fun _ => P ()) Q)
    (herror : ∀ left e q, m ⟨s, left⟩ = (.error (some e), q) → P () q.state) :
    Ends (Run.ignore m) s P Q := by
  intro left
  have hleft := h left
  unfold Run.ignore
  cases hrun : m ⟨s, left⟩ with
  | mk result q =>
    rw [hrun] at hleft
    rcases result with (_ | e) | a
    · exact hleft
    · exact herror left e q hrun
    · exact hleft

theorem Ends.ignore {P : Unit → σ → Prop} (h : Ends m s (fun _ => P ()) fun t => P () t ∧ Q t) :
    Ends (Run.ignore m) s P Q := by
  refine .ignore_of_error (.mono h (fun _ _ ht => ht) fun _ ht => ht.2) fun left e q hrun => ?_
  have hleft := h left
  rw [hrun] at hleft
  exact hleft.1

theorem commit_no_error {t : σ} (hop : op s = (.ok a, t)) (left : Option Nat)
    (e : ε) : (Run.commit op ⟨s, left⟩).1 ≠ .error (some e) := by
  unfold Run.commit
  simp only [hop]
  split <;> simp

theorem Ends.rescue (hm : Ends m s P M) (hQ : ∀ t, M t → Q t)
    (hhandler : ∀ e t, M t → Ends (handler e) t P Q) :
    Ends (Run.rescue m handler) s P Q := by
  intro left
  have hleft := hm left
  unfold Run.rescue
  cases hrun : m ⟨s, left⟩ with
  | mk result q =>
    rw [hrun] at hleft
    rcases result with (_ | e) | a
    · exact hQ q.state hleft
    · exact hhandler e q.state hleft q.left
    · exact hleft

theorem Ends.on {P : α → τ → Prop} {Q : τ → Prop}
    (h : Ends m (get t) (fun a s => P a (put t s)) fun s => Q (put t s)) :
    Ends (Run.on get put m) t P Q := by
  intro left
  have hleft := h left
  unfold Run.on
  cases hrun : m ⟨get t, left⟩ with
  | mk result q =>
    rw [hrun] at hleft
    cases result with
    | error e => exact hleft
    | ok a => exact hleft

theorem Ends.on_bind {f : α → Run τ ε β} {P : β → τ → Prop} {Q : τ → Prop} (hm : Ends m (get t) M N)
    (hN : ∀ s, N s → Q (put t s))
    (hf : ∀ a s, M a s → Ends (f a) (put t s) P Q) : Ends (Run.on get put m >>= f) t P Q := by
  refine .bind (M := fun a u => ∃ s, u = put t s ∧ M a s)
    (.on (.mono hm (fun a s h => ⟨s, rfl, h⟩) hN)) ?_
  rintro a _ ⟨s, rfl, h⟩
  exact hf a s h

end Ends

/-! ## §3. Preorders. -/

/-- Whatever the budget, the state left is `R`-related to `s`. -/
def MovesFrom (R : σ → σ → Prop) (m : Run σ ε α) (s : σ) : Prop := Ends m s (fun _ => R s) (R s)

section MovesFrom

variable {R : σ → σ → Prop} {m : Run σ ε α} {s : σ}

theorem MovesFrom.after (h : MovesFrom R m s) (left : Option Nat) : R s (m.after left s) :=
  Ends.after h left

theorem MovesFrom.mono (h : MovesFrom R m s) (hR : ∀ t, R s t → R' s t) : MovesFrom R' m s :=
  Ends.mono h (fun _ => hR) hR

theorem MovesFrom.look_bind {f : σ → Run σ ε β} (hf : MovesFrom R (f s) s) :
    MovesFrom R (Run.look >>= f) s := Ends.look_bind hf

theorem MovesFrom.ignore (h : MovesFrom R m s) : MovesFrom R (Run.ignore m) s :=
  Ends.ignore (Ends.mono h (fun _ _ ht => ht) fun _ ht => ⟨ht, ht⟩)

theorem MovesFrom.on {S : τ → τ → Prop} {get : τ → σ} {put : τ → σ → τ} (h : MovesFrom R m (get t))
    (hput : ∀ s, R (get t) s → S t (put t s)) : MovesFrom S (Run.on get put m) t :=
  Ends.on (Ends.mono h (fun _ => hput) hput)

variable [IsPreorder σ R]

theorem MovesFrom.pure (a : α) : MovesFrom R (Pure.pure a : Run σ ε α) s :=
  Ends.pure (Std.Refl.refl s)

theorem MovesFrom.hang : MovesFrom R (Run.hang : Run σ ε α) s := Ends.hang (Std.Refl.refl s)

theorem MovesFrom.check (x : Except ε α) : MovesFrom R (Run.check x : Run σ ε α) s :=
  Ends.check (Std.Refl.refl s) fun _ _ => Std.Refl.refl s

theorem MovesFrom.commit {op : Op σ ε α} (h : ∀ a t, op s = (.ok a, t) → R s t) :
    MovesFrom R (Run.commit op) s :=
  Ends.commit (Std.Refl.refl s) h

variable {f : α → Run σ ε β}

theorem MovesFrom.check_bind {x : Except ε α}
    (hf : ∀ a, x = .ok a → MovesFrom R (f a) s) : MovesFrom R (Run.check x >>= f) s :=
  Ends.check_bind (Std.Refl.refl s) hf

theorem MovesFrom.require_bind {c : Bool} {f : Unit → Run σ ε β} (hf : c → MovesFrom R (f ()) s) :
    MovesFrom R (Run.require c e >>= f) s :=
  Ends.require_bind (Std.Refl.refl s) hf

theorem MovesFrom.when {m : Run σ ε Unit} {c : Bool} (hm : c → MovesFrom R m s) :
    MovesFrom R (Run.when c m) s :=
  Ends.when hm fun _ => Std.Refl.refl s

theorem MovesFrom.bind_of (hm : Ends m s M (R s)) (hR : ∀ a t, M a t → R s t)
    (hf : ∀ a t, M a t → MovesFrom R (f a) t) :
    MovesFrom R (m >>= f) s :=
  Ends.bind hm fun a t hat => Ends.mono (hf a t hat)
    (fun _ u htu => IsTrans.trans s t u (hR a t hat) htu)
    fun u htu => IsTrans.trans s t u (hR a t hat) htu

theorem MovesFrom.bind (hm : MovesFrom R m s)
    (hf : ∀ a t, R s t → MovesFrom R (f a) t) : MovesFrom R (m >>= f) s :=
  .bind_of hm (fun _ _ h => h) hf

end MovesFrom

/-! ## §4. Running with enough power. -/

/-- With enough power `m` returns, and `P` holds of what it returns and leaves. -/
def Returns (m : Run σ ε α) (s : σ) (P : α → σ → Prop) : Prop :=
  ∃ a t, m ⟨s, none⟩ = (.ok a, ⟨t, none⟩) ∧ P a t

section Returns

variable {m : Run σ ε α} {s : σ} {P : α → σ → Prop} {a : α} {f : α → Run σ ε β} {c : Bool}

theorem Returns.pure (h : P a s) : Returns (Pure.pure a : Run σ ε α) s P := ⟨a, s, rfl, h⟩

theorem Returns.mono (h : Returns m s P) (hP : ∀ a t, P a t → P' a t) :
    Returns m s P' := by
  obtain ⟨a, t, hrun, ha⟩ := h
  exact ⟨a, t, hrun, hP a t ha⟩

theorem Returns.commit {op : Op σ ε α} {t : σ} (hop : op s = (.ok a, t)) (h : P a t) :
    Returns (Run.commit op) s P := by
  refine ⟨a, t, ?_, h⟩
  simp only [Run.commit, hop, Run.spend]

theorem Returns.bind {P : β → σ → Prop} (hm : Returns m s M)
    (hf : ∀ a t, M a t → Returns (f a) t P) : Returns (m >>= f) s P := by
  obtain ⟨a, t, hrun, ha⟩ := hm
  obtain ⟨b, u, hrest, hb⟩ := hf a t ha
  exact ⟨b, u, by rw [Op.bind_of_ok hrun, hrest], hb⟩

theorem Returns.look_bind {f : σ → Run σ ε β} {P : β → σ → Prop} (hf : Returns (f s) s P) :
    Returns (Run.look >>= f) s P := hf

theorem Returns.check_bind {P : β → σ → Prop} (hx : x = .ok a)
    (hf : Returns (f a) s P) : Returns (Run.check x >>= f) s P := by
  subst hx
  exact hf

theorem Returns.require_bind {f : Unit → Run σ ε β} {P : β → σ → Prop} (hc : c) (hf : Returns (f ()) s P) :
    Returns (Run.require c e >>= f) s P := by
  subst hc
  exact hf

theorem Returns.when {m : Run σ ε Unit} {P : Unit → σ → Prop}
    (hm : c → Returns m s P) (hskip : c = false → P () s) : Returns (Run.when c m) s P := by
  cases c with
  | true => exact hm rfl
  | false => exact .pure (hskip rfl)

theorem Returns.ignore {P : Unit → σ → Prop} (h : Returns m s fun _ => P ()) :
    Returns (Run.ignore m) s P := by
  obtain ⟨a, t, hrun, ha⟩ := h
  refine ⟨(), t, ?_, ha⟩
  simp only [Run.ignore, hrun]

theorem Returns.on {get : τ → σ} {put : τ → σ → τ} {P : α → τ → Prop}
    (h : Returns m (get t) fun a s => P a (put t s)) : Returns (Run.on get put m) t P := by
  obtain ⟨a, s, hrun, ha⟩ := h
  refine ⟨a, put t s, ?_, ha⟩
  simp only [Run.on, hrun]

theorem Returns.and_ends (h : Returns m s P) (he : Ends m s P' Q) :
    Returns m s fun a t => P a t ∧ P' a t := by
  obtain ⟨a, t, hrun, ha⟩ := h
  exact ⟨a, t, hrun, ha, he.of_ok hrun⟩

end Returns

end Run

end Foundation
