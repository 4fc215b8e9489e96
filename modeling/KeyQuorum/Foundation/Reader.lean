/-
  **READERS, WRITERS, AND WHEN THEY ARE INVERSE.**

  A decoder consumes a prefix of a byte string and may fail; an encoder
  yields the bytes to append and may fail.  `Inverts enc dec` says
  that what is written reads back and that nothing else is read.

  Record codecs are proved field by field: `Reads.bind` walks a decoder
  forwards along the written bytes, `Reader.bind_ok` peels an accepted
  input apart, and `Inverts.readN` lifts both laws to counted lists.
-/
import KeyQuorum.Foundation.Bytes

namespace Foundation

open List

variable {ε α β : Type}

/-! ## §1. Fallible values. -/

variable {x : Except ε α} {b : β} {e : ε} {a : α} {l : List α} {enc : α → Except ε Bytes} {c : Bool}

theorem try_ok (h : (x >>= f) = .ok b) : ∃ a, x = .ok a ∧ f a = .ok b := by
  cases x with
  | error e => exact absurd h (by simp [bind, Except.bind])
  | ok a => exact ⟨a, rfl, h⟩

theorem else_ok {c : Prop} [Decidable c]
    (h : (if c then .error e else x) = .ok a) : ¬ c ∧ x = .ok a := by
  split at h
  next => cases h
  next hc => exact ⟨hc, h⟩

theorem then_ok {c : Prop} [Decidable c] (h : (if c then x else .error e) = .ok a) : c ∧ x = .ok a := by
  split at h
  next hc => exact ⟨hc, h⟩
  next => cases h

def okOr (found : Option α) (e : ε) : Except ε α :=
  match found with
  | some a => .ok a
  | none => .error e

theorem okOr_ok (h : okOr found e = .ok a) : found = some a := by
  cases found with
  | some b => rw [Except.ok.inj h]
  | none => exact absurd h (by simp [okOr])

@[simp] theorem except_ok_bind (a : α) (f : α → Except ε β) : (Except.ok a >>= f) = f a := rfl

@[simp] theorem except_error_bind (e : ε) (f : α → Except ε β) :
    ((Except.error e : Except ε α) >>= f) = .error e := rfl

/-! ## §2. Readers. -/

def Reader (ε α : Type) : Type := Bytes → Except ε (α × Bytes)

namespace Reader

instance : Monad (Reader ε) where
  pure a := fun data => .ok (a, data)
  bind p f := fun data =>
    match p data with
    | .ok (a, rest) => f a rest
    | .error e => .error e

def fail (e : ε) : Reader ε α := fun _ => .error e

def lift (x : Except ε α) : Reader ε α := fun data => x.map (·, data)

/-- Continue only when `c` holds. -/
def require (c : Bool) (e : ε) : Reader ε Unit := lift (if c then .ok () else .error e)

theorem pure_apply (a : α) (data : Bytes) : (pure a : Reader ε α) data = .ok (a, data) := rfl

variable {p : Reader ε α} {f : α → Reader ε β} {data rest : Bytes}

/-- **Peeling**: an accepted sequence splits at the end of its first part. -/
theorem bind_ok (h : (p >>= f) data = .ok (b, rest)) :
    ∃ a mid, p data = .ok (a, mid) ∧ f a mid = .ok (b, rest) := by
  change (match p data with
    | .ok (a, rest) => f a rest
    | .error e => .error e) = .ok (b, rest) at h
  split at h
  next a mid hp => exact ⟨a, mid, hp, h⟩
  next => cases h

theorem bind_apply (h : p data = .ok (a, mid)) : (p >>= f) data = f a mid := by
  change (match p data with
    | .ok (a, rest) => f a rest
    | .error e => .error e) = f a mid
  rw [h]

theorem bind_assoc {γ : Type} (p : Reader ε α) (f : α → Reader ε β) (g : β → Reader ε γ) :
    (p >>= f) >>= g = p >>= fun a => f a >>= g := by
  funext data
  simp only [Bind.bind]
  cases p data <;> rfl

theorem lift_ok (h : lift x data = .ok (a, rest)) : x = .ok a ∧ rest = data := by
  cases x with
  | error e => exact absurd h (by simp [lift, Except.map])
  | ok a' =>
    simp only [lift, Except.map, Except.ok.injEq, Prod.mk.injEq] at h
    exact ⟨by rw [h.1], h.2.symm⟩

theorem lift_bind_ok (h : (lift x >>= f) data = .ok (b, rest)) : ∃ a, x = .ok a ∧ f a data = .ok (b, rest) := by
  obtain ⟨a, mid, ha, hf⟩ := bind_ok h
  obtain ⟨hx, hmid⟩ := lift_ok ha
  exact ⟨a, hx, hmid ▸ hf⟩

theorem require_bind_ok {f : Unit → Reader ε β} (h : (require c e >>= f) data = .ok (b, rest)) :
    c ∧ f () data = .ok (b, rest) := by
  obtain ⟨_, hc, h⟩ := lift_bind_ok h
  cases c with
  | false => cases hc
  | true => exact ⟨rfl, h⟩

theorem pure_ok {b : α} (h : (pure a : Reader ε α) data = .ok (b, rest)) :
    a = b ∧ data = rest := by
  simpa only [pure_apply, Except.ok.injEq, Prod.mk.injEq] using h

/-- Read `n` values in a row. -/
def readN (dec : Reader ε α) : Nat → Reader ε (List α)
  | 0 => pure []
  | n + 1 => do
      let a ← dec
      let as ← readN dec n
      pure (a :: as)

theorem readN_forall {dec : Reader ε α} {P : α → Prop}
    (hdec : ∀ {data rest : Bytes} {a : α}, dec data = .ok (a, rest) → P a) {n : Nat}
    (h : dec.readN n data = .ok (l, rest)) : ∀ a ∈ l, P a := by
  induction n generalizing data l rest with
  | zero =>
    obtain ⟨rfl, -⟩ := pure_ok h
    exact nofun
  | succ n ih =>
    obtain ⟨a, _, ha, h⟩ := bind_ok h
    obtain ⟨more, _, hmore, h⟩ := bind_ok h
    obtain ⟨rfl, -⟩ := pure_ok h
    intro b hb
    rcases mem_cons.mp hb with rfl | hb
    · exact hdec ha
    · exact ih hmore b hb

end Reader

instance decidableForallSome {o : Option α} {P : α → Prop} [DecidablePred P] :
    Decidable (∀ a, o = some a → P a) :=
  inferInstanceAs (Decidable (∀ a ∈ o, P a))

/-- Whether a computation succeeds with a result of a kind can be found out by running it. -/
instance decidableExistsOk {x : Except ε α} {P : α → Prop} [DecidablePred P] :
    Decidable (∃ a, x = .ok a ∧ P a) :=
  match x with
  | .ok a => decidable_of_iff (P a) ⟨fun h => ⟨a, rfl, h⟩, fun ⟨_, heq, h⟩ => Except.ok.inj heq ▸ h⟩
  | .error _ => isFalse fun ⟨_, heq, _⟩ => nomatch heq

theorem mapM_ok_map {γ : Type} {f : α → Except ε β} {g : β → γ} {k : α → γ} {results : List β}
    (hg : ∀ a b, f a = .ok b → g b = k a) (h : l.mapM f = .ok results) : results.map g = l.map k := by
  induction l generalizing results with
  | nil =>
    cases h
    rfl
  | cons first rest ih =>
    rw [mapM_cons] at h
    obtain ⟨result, hresult, h⟩ := try_ok h
    obtain ⟨more, hmore, h⟩ := try_ok h
    cases h
    rw [map_cons, map_cons, hg first result hresult, ih hmore]

def writeAll (enc : α → Except ε Bytes) : List α → Except ε Bytes
  | [] => .ok []
  | a :: as => do
      let first ← enc a
      let more ← writeAll enc as
      .ok (first ++ more)

theorem writeAll_total (h : ∀ a ∈ l, ∃ bs, enc a = .ok bs) : ∃ bs, writeAll enc l = .ok bs := by
  induction l with
  | nil => exact ⟨[], rfl⟩
  | cons a l ih =>
    obtain ⟨first, hfirst⟩ := h a (.head _)
    obtain ⟨more, hmore⟩ := ih (fun b hb => h b (mem_cons_of_mem a hb))
    exact ⟨first ++ more, by simp [writeAll, hfirst, hmore]⟩

variable {p : Reader ε α} {f : α → Reader ε β} {bs : Bytes}

theorem writeAll_ok_mem (h : writeAll enc l = .ok bs) : ∀ a ∈ l, ∃ bytes, enc a = .ok bytes := by
  induction l generalizing bs with
  | nil => intro a ha; cases ha
  | cons b l ih =>
    obtain ⟨first, hfirst, h⟩ := try_ok h
    obtain ⟨more, hmore, -⟩ := try_ok h
    intro a ha
    rcases mem_cons.mp ha with rfl | ha
    · exact ⟨first, hfirst⟩
    · exact ih hmore a ha

theorem writeAll_error (h : writeAll enc l = .error e) : ∃ a ∈ l, enc a = .error e := by
  induction l with
  | nil => exact absurd h (by simp [writeAll])
  | cons a l ih =>
    cases ha : enc a with
    | error e' =>
      rw [writeAll, ha] at h
      exact ⟨a, mem_cons_self, ha.trans h⟩
    | ok first =>
      cases hl : writeAll enc l with
      | error e' =>
        rw [writeAll, ha, hl] at h
        obtain ⟨b, hb, hbe⟩ := ih (hl.trans h)
        exact ⟨b, mem_cons_of_mem a hb, hbe⟩
      | ok more =>
        rw [writeAll, ha, hl] at h
        cases h

/-! ## §3. Reading what was written. -/

/-- `p` reads `a` off the front of `bs ++ rest` and leaves `rest`, whatever follows. -/
def Reads (p : Reader ε α) (bs : Bytes) (a : α) : Prop :=
  ∀ rest, p (bs ++ rest) = .ok (a, rest)

theorem Reads.pure (a : α) : Reads (Pure.pure a : Reader ε α) [] a := fun _ => rfl

theorem Reads.bind (hp : Reads p bs a) (hf : Reads (f a) cs b) : Reads (p >>= f) (bs ++ cs) b := by
  intro rest
  rw [append_assoc, Reader.bind_apply (hp (cs ++ rest))]
  exact hf rest

theorem Reads.bind_last (hp : Reads p bs a) (hf : Reads (f a) [] b) : Reads (p >>= f) bs b := by
  have h := hp.bind hf
  rwa [append_nil] at h

theorem Reads.lift (h : x = .ok a) : Reads (Reader.lift x) [] a := by
  intro rest
  rw [h]
  rfl

theorem Reads.require_bind {f : Unit → Reader ε β} (hc : c) (hf : Reads (f ()) bs b) :
    Reads (Reader.require c e >>= f) bs b := by
  subst hc
  exact hf

/-! ## §4. Reading back at most what was written. -/

/-- `p` may refuse `bs ++ rest`, but if it accepts, it reads `a` and leaves `rest`.  This is the
law of a decoder that checks what it reads on the way. -/
def ReadsAtMost (p : Reader ε α) (bs : Bytes) (a : α) : Prop :=
  ∀ rest r, p (bs ++ rest) = .ok r → r = (a, rest)

theorem Reads.atMost (h : Reads p bs a) :
    ReadsAtMost p bs a := by
  intro rest r hr
  rw [h rest] at hr
  exact (Except.ok.inj hr).symm

theorem ReadsAtMost.bind (hp : ReadsAtMost p bs a) (hf : ReadsAtMost (f a) cs b) :
    ReadsAtMost (p >>= f) (bs ++ cs) b := by
  intro rest r hr
  rw [append_assoc] at hr
  obtain ⟨a', mid, ha, hfr⟩ := @Reader.bind_ok _ _ _ r.1 _ _ _ r.2 hr
  obtain ⟨rfl, rfl⟩ := Prod.mk.inj (hp _ _ ha)
  exact hf rest r hfr

theorem ReadsAtMost.bind_last
    (hp : ReadsAtMost p bs a) (hf : ReadsAtMost (f a) [] b) : ReadsAtMost (p >>= f) bs b := by
  have h := hp.bind hf
  rwa [append_nil] at h

theorem ReadsAtMost.lift_bind
    (hf : ∀ a, x = .ok a → ReadsAtMost (f a) bs b) : ReadsAtMost (Reader.lift x >>= f) bs b := by
  intro rest r hr
  obtain ⟨a, hx, hfr⟩ := @Reader.lift_bind_ok _ _ _ _ r.1 _ _ r.2 hr
  exact hf a hx rest r hfr

theorem ReadsAtMost.require_bind {f : Unit → Reader ε β} (hf : ReadsAtMost (f ()) bs b) :
    ReadsAtMost (Reader.require c e >>= f) bs b :=
  ReadsAtMost.lift_bind fun _ _ => hf

theorem ReadsAtMost.list (h : ∀ a ∈ l, ∀ bs, enc a = .ok bs → ReadsAtMost dec bs a)
    (hw : writeAll enc l = .ok bs) : ReadsAtMost (dec.readN l.length) bs l := by
  induction l generalizing bs with
  | nil =>
    cases hw
    exact (Reads.pure []).atMost
  | cons a l ih =>
    obtain ⟨first, hfirst, hw⟩ := try_ok hw
    obtain ⟨more, hmore, hw⟩ := try_ok hw
    cases hw
    refine (h a (.head _) first hfirst).bind ?_
    exact (ih (fun b hb => h b (mem_cons_of_mem a hb)) hmore).bind_last (Reads.pure _).atMost

/-! ## §5. Inverse codecs. -/

/-- **The two laws of an unambiguous format.** -/
structure Inverts (enc : α → Except ε Bytes) (dec : Reader ε α) : Prop where
  reads : ∀ {a : α} {bs : Bytes}, enc a = .ok bs → Reads dec bs a
  writes : ∀ {data : Bytes} {a : α} {rest : Bytes}, dec data = .ok (a, rest) →
    ∃ bs, enc a = .ok bs ∧ data = bs ++ rest

namespace Inverts

variable {enc : α → Except ε Bytes} {dec : Reader ε α} (h : Inverts enc dec)

include h

theorem peel (hd : (dec >>= f) data = .ok (b, rest)) :
    ∃ a bs mid, enc a = .ok bs ∧ data = bs ++ mid ∧ f a mid = .ok (b, rest) := by
  obtain ⟨a, mid, ha, hf⟩ := Reader.bind_ok hd
  obtain ⟨bs, hbs, hdata⟩ := h.writes ha
  exact ⟨a, bs, mid, hbs, hdata, hf⟩

theorem injective {b : α} {as ra rb : Bytes} (ha : enc a = .ok as) (hb : enc b = .ok bs)
    (heq : as ++ ra = bs ++ rb) : a = b ∧ ra = rb := by
  have hra := h.reads ha ra
  have hrb := h.reads hb rb
  rw [heq, hrb] at hra
  simp only [Except.ok.injEq, Prod.mk.injEq] at hra
  exact ⟨hra.1.symm, hra.2.symm⟩

/-- A value stored as a code. -/
theorem coded {γ : Type} {f : γ → α} {g : α → Except ε γ} (hf : ∀ c, g (f c) = .ok c)
    (hg : ∀ {a c}, g a = .ok c → a = f c) :
    Inverts (fun c => enc (f c)) (dec >>= fun a => Reader.lift (g a)) where
  reads := fun hc => (h.reads hc).bind_last (.lift (hf _))
  writes := by
    intro data c rest hd
    obtain ⟨a, bs, mid, hbs, hdata, hd⟩ := h.peel hd
    obtain ⟨hc, rfl⟩ := Reader.lift_ok hd
    exact ⟨bs, hg hc ▸ hbs, hdata⟩

theorem reads_list :
    ∀ {l : List α} {bs : Bytes}, writeAll enc l = .ok bs → Reads (dec.readN l.length) bs l := by
  intro l
  induction l with
  | nil =>
    intro bs hw
    cases hw
    exact .pure []
  | cons a l ih =>
    intro bs hw
    obtain ⟨first, hfirst, hw⟩ := try_ok hw
    obtain ⟨more, hmore, hw⟩ := try_ok hw
    cases hw
    exact (h.reads hfirst).bind ((ih hmore).bind_last (.pure _))

theorem writes_list :
    ∀ {n : Nat} {data : Bytes} {l : List α} {rest : Bytes}, dec.readN n data = .ok (l, rest) →
      l.length = n ∧ ∃ bs, writeAll enc l = .ok bs ∧ data = bs ++ rest := by
  intro n
  induction n with
  | zero =>
    intro data l rest hr
    obtain ⟨rfl, rfl⟩ := Reader.pure_ok hr
    exact ⟨rfl, [], rfl, rfl⟩
  | succ n ih =>
    intro data l rest hr
    obtain ⟨a, mid, ha, hr⟩ := Reader.bind_ok hr
    obtain ⟨as, mid', has, hr⟩ := Reader.bind_ok hr
    obtain ⟨rfl, rfl⟩ := Reader.pure_ok hr
    obtain ⟨first, hfirst, rfl⟩ := h.writes ha
    obtain ⟨hlen, more, hmore, rfl⟩ := ih has
    refine ⟨by simp [hlen], first ++ more, ?_, by rw [append_assoc]⟩
    simp [writeAll, hfirst, hmore]

end Inverts

/-! ## §6. Records. -/

section Records

variable {γ : Type} {P : β → Prop} {w : β → Except ε Bytes} {dec : Reader ε α}

def andThen (first more : Except ε Bytes) : Except ε Bytes := do
  let first ← first
  let more ← more
  .ok (first ++ more)

/-- `p` reads what `w` writes of a record, for the records with the fields `P` that were read
before, and nothing else. -/
structure Spells (P : β → Prop) (w : β → Except ε Bytes) (p : Reader ε β) : Prop where
  reads : ∀ {b : β} {bs : Bytes}, P b → w b = .ok bs → Reads p bs b
  writes : ∀ {data : Bytes} {b : β} {rest : Bytes}, p data = .ok (b, rest) →
    P b ∧ ∃ bs, w b = .ok bs ∧ data = bs ++ rest

theorem Spells.record (h : ∀ b, P b ↔ b = r) :
    Spells P (fun _ => .ok []) (pure r : Reader ε β) where
  reads := by
    rintro b _ hb ⟨⟩
    rw [(h b).mp hb]
    exact .pure r
  writes := by
    intro data b rest hd
    obtain ⟨rfl, rfl⟩ := Reader.pure_ok hd
    exact ⟨(h r).mpr rfl, [], rfl, rfl⟩

theorem Inverts.field (h : Inverts enc dec) (get : β → α)
    (hf : ∀ a, Spells (fun b => get b = a ∧ P b) w (f a)) :
    Spells P (fun b => andThen (enc (get b)) (w b)) (dec >>= f) where
  reads := by
    intro b bs hb hw
    obtain ⟨first, hfirst, hw⟩ := try_ok hw
    obtain ⟨more, hmore, hw⟩ := try_ok hw
    cases hw
    exact (h.reads hfirst).bind ((hf (get b)).reads ⟨rfl, hb⟩ hmore)
  writes := by
    intro data b rest hd
    obtain ⟨a, first, mid, hfirst, rfl, hmid⟩ := h.peel hd
    obtain ⟨⟨rfl, hb⟩, more, hmore, rfl⟩ := (hf a).writes hmid
    exact ⟨hb, first ++ more, by simp [andThen, hfirst, hmore], by rw [append_assoc]⟩

/-- A field that is stored as a code. -/
theorem Inverts.codedField (h : Inverts enc dec) {code : γ → α} {conv : α → Except ε γ}
    (hcode : ∀ c, conv (code c) = .ok c) (hconv : ∀ {a c}, conv a = .ok c → a = code c)
    (get : β → γ) {f : γ → Reader ε β} (hf : ∀ c, Spells (fun b => get b = c ∧ P b) w (f c)) :
    Spells P (fun b => andThen (enc (code (get b))) (w b))
      (dec >>= fun a => Reader.lift (conv a) >>= f) := by
  rw [← Reader.bind_assoc]
  exact (h.coded hcode hconv).field get hf

theorem Spells.inverts {enc : β → Except ε Bytes} {p : Reader ε β}
    (h : Spells (fun _ => True) w p) (heq : ∀ b, enc b = w b) : Inverts enc p where
  reads := fun hb => h.reads trivial (heq _ ▸ hb)
  writes := by
    intro data b rest hd
    obtain ⟨-, bs, hbs, hdata⟩ := h.writes hd
    exact ⟨bs, (heq b).trans hbs, hdata⟩

end Records

end Foundation
