/-
  **OPERATIONS THAT CAN FAIL HALF-WAY.**

  `Op σ ε α` is a method on a mutable receiver: it returns a value or an
  error, and in BOTH cases it leaves a state behind.  An early return after
  a mutation therefore shows, which is what makes "all or nothing" a
  statement worth proving.
-/
import KeyQuorum.Foundation.Reader

namespace Foundation

variable {σ ε α β : Type}

/-! ## §1. Operations. -/

/-- A fallible method on a mutable state; the state survives an error. -/
def Op (σ ε α : Type) : Type := σ → Except ε α × σ

namespace Op

instance : Monad (Op σ ε) where
  pure a := fun s => (.ok a, s)
  bind m f := fun s =>
    match m s with
    | (.ok a, s') => f a s'
    | (.error e, s') => (.error e, s')

def read : Op σ ε σ := fun s => (.ok s, s)

def modify (f : σ → σ) : Op σ ε Unit := fun s => (.ok (), f s)

def lift (x : Except ε α) : Op σ ε α := fun s => (x, s)

/-- Continue only when `c` holds. -/
def require (c : Bool) (e : ε) : Op σ ε Unit := fun s => (if c then .ok () else .error e, s)

/-- Run `m`; if it fails, put the state back with `restore before after`. -/
def rollback (restore : σ → σ → σ) (m : Op σ ε α) : Op σ ε α := fun s =>
  match m s with
  | (.ok a, s') => (.ok a, s')
  | (.error e, s') => (.error e, restore s s')

/-- A transaction: the body gives a result and a new state, or fails and nothing has happened. -/
def transact (body : σ → Except ε (α × σ)) : Op σ ε α := fun s =>
  match body s with
  | .ok (a, s') => (.ok a, s')
  | .error e => (.error e, s)

/-- Run `m` on a part of the state. -/
def zoom {τ : Type} (get : σ → τ) (put : σ → τ → σ) (m : Op τ ε α) : Op σ ε α := fun s =>
  ((m (get s)).1, put s (m (get s)).2)

/-- Run `m` and drop its result. -/
def void (m : Op σ ε α) : Op σ ε Unit := fun s => ((m s).1.map fun _ => (), (m s).2)

theorem pure_apply (a : α) (s : σ) : (pure a : Op σ ε α) s = (.ok a, s) := rfl

theorem bind_apply (m : Op σ ε α) (f : α → Op σ ε β) (s : σ) :
    (m >>= f) s = match m s with
      | (.ok a, s') => f a s'
      | (.error e, s') => (.error e, s') := rfl

/-! ## §2. Peeling a run apart. -/

variable {m : Op σ ε α} {s s' : σ} {f : α → Op σ ε β} {b : β} {a : α} {c : Bool} {e : ε}
  {R : σ → σ → Prop} {g : σ → σ}

theorem run_eq (h : (m s).1 = r) : m s = (r, (m s).2) := by
  rw [← h]

theorem bind_ok (h : (m >>= f) s = (.ok b, s')) :
    ∃ a mid, m s = (.ok a, mid) ∧ f a mid = (.ok b, s') := by
  rw [bind_apply] at h
  split at h
  next a mid hm => exact ⟨a, mid, hm, h⟩
  next => cases h

theorem pure_ok {b : α} (h : (pure a : Op σ ε α) s = (.ok b, s')) :
    a = b ∧ s = s' := by
  simpa only [pure_apply, Prod.mk.injEq, Except.ok.injEq] using h

theorem read_bind_ok {f : σ → Op σ ε β} (h : (read >>= f) s = (.ok b, s')) : f s s = (.ok b, s') := h

theorem lift_bind_ok (h : (lift x >>= f) s = (.ok b, s')) : ∃ a, x = .ok a ∧ f a s = (.ok b, s') := by
  cases x with
  | error e => exact absurd h (by simp [bind_apply, lift])
  | ok a => exact ⟨a, rfl, h⟩

theorem require_bind_ok {f : Unit → Op σ ε β}
    (h : (require c e >>= f) s = (.ok b, s')) : c ∧ f () s = (.ok b, s') := by
  cases c with
  | false => exact absurd h (by simp [bind_apply, require])
  | true => exact ⟨rfl, h⟩

theorem modify_pure_ok {b : α} (h : (modify g >>= fun _ => pure a : Op σ ε α) s = (.ok b, s')) :
    a = b ∧ s' = g s := by
  simp only [bind_apply, modify, pure_apply, Prod.mk.injEq, Except.ok.injEq] at h
  exact ⟨h.1, h.2.symm⟩

theorem modify_ok {f : σ → σ} (h : (modify f : Op σ ε Unit) s = (.ok u, s')) : s' = f s := by
  simp only [modify, Prod.mk.injEq] at h
  exact h.2.symm

theorem require_modify_ok {f : σ → σ} :
    (require c e >>= fun _ => modify f : Op σ ε Unit) s = (.ok u, s') ↔ c ∧ s' = f s := by
  refine ⟨fun h => (require_bind_ok h).imp_right modify_ok, ?_⟩
  rintro ⟨rfl, rfl⟩
  rfl

theorem require_modify_pure_ok {b : α} :
    (require c e >>= fun _ => modify g >>= fun _ => pure a : Op σ ε α) s = (.ok b, s')
      ↔ c ∧ b = a ∧ s' = g s := by
  refine ⟨fun h => (require_bind_ok h).imp_right fun h => (modify_pure_ok h).imp_left Eq.symm, ?_⟩
  rintro ⟨rfl, rfl, rfl⟩
  rfl

theorem bind_of_ok (h : m s = (.ok a, mid)) : (m >>= f) s = f a mid := by
  rw [bind_apply, h]

theorem read_bind (f : σ → Op σ ε β) (s : σ) : (read >>= f) s = f s s := rfl

theorem modify_bind (g : σ → σ) (f : Unit → Op σ ε β) (s : σ) :
    (modify g >>= f) s = f () (g s) := rfl

theorem lift_bind (hx : x = .ok a) (f : α → Op σ ε β) (s : σ) :
    (lift x >>= f) s = f a s := by
  rw [hx]
  rfl

theorem require_bind (hc : c) (e : ε) (f : Unit → Op σ ε β) (s : σ) :
    (require c e >>= f) s = f () s := by
  rw [hc]
  rfl

theorem rollback_ok (h : rollback restore m s = (.ok a, s')) : m s = (.ok a, s') := by
  unfold rollback at h
  split at h
  next a' mid hm =>
    rw [hm]
    exact h
  next => cases h

theorem rollback_of_ok (h : m s = (.ok a, s')) : rollback restore m s = (.ok a, s') := by
  unfold rollback
  rw [h]

theorem transact_cases (body : σ → Except ε (α × σ)) (s : σ) :
    (∃ a s', body s = .ok (a, s') ∧ transact body s = (.ok a, s'))
      ∨ ∃ e, transact body s = (.error e, s) := by
  unfold transact
  split
  next a s' hbody => exact .inl ⟨a, s', hbody, rfl⟩
  next e _ => exact .inr ⟨e, rfl⟩

theorem zoom_ok {get : σ → τ} {m : Op τ ε α} (h : zoom get put m s = (.ok a, s')) :
    ∃ t, m (get s) = (.ok a, t) ∧ s' = put s t := by
  obtain ⟨hresult, rfl⟩ := Prod.mk.inj h
  exact ⟨_, run_eq hresult, rfl⟩

theorem zoom_of_ok {get : σ → τ} {m : Op τ ε α}
    (h : m (get s) = (.ok a, t)) : zoom get put m s = (.ok a, put s t) := by
  unfold zoom
  rw [h]

/-! ## §3. What an operation can do to the state. -/

/-- Every state `m` can leave, on success or on error, is `R`-related to the first. -/
def Moves (R : σ → σ → Prop) (m : Op σ ε α) : Prop := ∀ s, R s (m s).2

section Moves

variable {R : σ → σ → Prop} [IsPreorder σ R]

theorem Moves.pure (a : α) : Moves R (Pure.pure a : Op σ ε α) := Std.Refl.refl (r := R)

theorem Moves.bind (hm : Moves R m) (hf : ∀ a, Moves R (f a)) : Moves R (m >>= f) := by
  intro s
  have hs := hm s
  rw [bind_apply]
  split
  next a mid hmid =>
    rw [hmid] at hs
    exact IsTrans.trans _ _ _ hs (hf a mid)
  next e mid hmid =>
    rw [hmid] at hs
    exact hs

omit [IsPreorder σ R] in
theorem Moves.read_bind {f : σ → Op σ ε β} (hf : ∀ a, Moves R (f a)) : Moves R (Op.read >>= f) :=
  fun s => hf s s

theorem Moves.lift_bind (hf : ∀ a, Moves R (f a)) : Moves R (Op.lift x >>= f) :=
  Moves.bind (fun s => Std.Refl.refl s) hf

theorem Moves.require_bind {f : Unit → Op σ ε β} (hf : Moves R (f ())) :
    Moves R (Op.require c e >>= f) :=
  Moves.bind (fun s => Std.Refl.refl s) fun _ => hf

omit [IsPreorder σ R] in
theorem Moves.rollback (hm : Moves R m) (hr : ∀ s s', R s s' → R s (restore s s')) :
    Moves R (Op.rollback restore m) := by
  intro s
  have hs := hm s
  unfold Op.rollback
  split
  next a mid hmid =>
    rw [hmid] at hs
    exact hs
  next e mid hmid =>
    rw [hmid] at hs
    exact hr s mid hs

end Moves

/-! ## §4. All or nothing. -/

def Atomic (m : Op σ ε α) : Prop := ∀ s e, (m s).1 = .error e → (m s).2 = s

theorem Atomic.pure (a : α) : Atomic (Pure.pure a : Op σ ε α) := fun _ _ _ => rfl

theorem Atomic.transact (body : σ → Except ε (α × σ)) : Atomic (Op.transact body) := by
  intro s e h
  unfold Op.transact at h ⊢
  split at h
  next => cases h
  next => rfl

theorem Atomic.modify (f : σ → σ) : Atomic (Op.modify f : Op σ ε Unit) := by
  intro s e h
  simp [Op.modify] at h

theorem Atomic.modify_pure (f : σ → σ) (a : α) :
    Atomic (Op.modify f >>= fun _ => Pure.pure a : Op σ ε α) := by
  intro s e h
  simp [bind_apply, Op.modify, pure_apply] at h

theorem Atomic.read_bind {f : σ → Op σ ε β} (hf : ∀ a, Atomic (f a)) :
    Atomic (Op.read >>= f) := fun s e h => hf s s e h

theorem Atomic.lift_bind (hf : ∀ a, Atomic (f a)) :
    Atomic (Op.lift x >>= f) := by
  intro s e h
  cases x with
  | error e' => rfl
  | ok a => exact hf a s e h

theorem Atomic.require_bind {f : Unit → Op σ ε β} (hf : Atomic (f ())) :
    Atomic (Op.require c e >>= f) := by
  intro s e' h
  cases c with
  | false => rfl
  | true => exact hf s e' h

theorem Moves.of_atomic [IsPreorder σ R] (hm : Atomic m) (hok : ∀ s a s', m s = (.ok a, s') → R s s') :
    Moves R m := by
  intro s
  cases h : m s with
  | mk result s' =>
    cases result with
    | ok a => exact hok s a s' h
    | error e =>
      have hs := hm s e (by rw [h])
      rw [h] at hs
      subst hs
      exact Std.Refl.refl s'

theorem Atomic.bind_pure (hm : Atomic m) (g : α → β) :
    Atomic (m >>= fun a => Pure.pure (g a)) := by
  intro s e h
  rw [bind_apply] at h ⊢
  split at h
  next a mid hmid => simp [pure_apply] at h
  next e' mid hmid =>
    have hs := hm s e' (by rw [hmid])
    rw [hmid] at hs
    exact hs

theorem Atomic.void (hm : Atomic m) : Atomic m.void := by
  intro s e h
  refine hm s e ?_
  cases hrun : (m s).1 with
  | ok a => simp [Op.void, hrun, Except.map] at h
  | error e' => simpa [Op.void, hrun, Except.map] using h

/-- An invariant of an all-or-nothing operation has to be checked for its successes only. -/
theorem Atomic.invariant {P : σ → Prop} (hm : Atomic m) (hs : P s)
    (hok : ∀ a s', m s = (.ok a, s') → P s') : P (m s).2 := by
  cases hrun : (m s).1 with
  | ok a => exact hok a (m s).2 (run_eq hrun)
  | error e =>
    rw [hm s e hrun]
    exact hs

theorem Atomic.read_bind_self {f : σ → Op σ ε β}
    (hf : ∀ s e s', f s s = (.error e, s') → s' = s) : Atomic (Op.read >>= f) := by
  intro s e h
  change (f s s).1 = .error e at h
  exact hf s e (f s s).2 (by rw [← h])

theorem require_bind_error {f : Unit → Op σ ε β}
    (h : (require c e >>= f) s = (.error e', s')) : s' = s ∨ f () s = (.error e', s') := by
  cases c with
  | false => exact .inl (Prod.mk.inj h).2.symm
  | true => exact .inr h

theorem bind_pure_error {g : α → β}
    (h : (m >>= fun a => Pure.pure (g a)) s = (.error e, s')) : m s = (.error e, s') := by
  rw [bind_apply] at h
  split at h
  next => exact absurd h (by simp [pure_apply])
  next hm =>
    rw [hm]
    simpa using h

/-- **Rollback is all or nothing** when the restore undoes every state the body can leave. -/
theorem Atomic.rollback (hm : Moves R m) (hr : ∀ s s', R s s' → restore s s' = s) :
    Atomic (Op.rollback restore m) := by
  intro s e h
  have hs := hm s
  unfold Op.rollback at h ⊢
  split at h
  next a mid hmid => simp at h
  next e' mid hmid =>
    rw [hmid] at hs
    exact hr s mid hs

end Op

end Foundation
