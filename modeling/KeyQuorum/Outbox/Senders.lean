/-
  **ANY NUMBER OF PROCESSES ON ONE OUTBOX.**

  A send is three transactions with a delivery between them, and other
  processes may do anything in between: queue, drop, resize, claim the same
  letter, or crash.  Every process's send is at one of three points; a step
  moves one process, or changes the outbox from outside.

  The one assumption is that the random claim tokens do not repeat.
-/
import KeyQuorum.Foundation.Runs
import KeyQuorum.Outbox.Queue

namespace KeyQuorum.Outbox

open List Foundation

/-! ## §1. Processes and steps. -/

/-- Where a send stands: delivering, delivered and about to free the slot, or failed and about to free
its claim. -/
inductive Phase where
  | delivering
  | delivered
  | failing
  deriving DecidableEq, Repr

structure Sending where
  token : ClaimToken
  item : QueuedItem
  letter : QueuedLetter
  phase : Phase
  deriving DecidableEq, Repr

/-- An outbox and the sends running on it; the letters a delivery of which succeeded and the claim tokens
drawn are kept on the side. -/
structure World (ι : Type) where
  box : Outbox
  sends : ι → Option Sending
  delivered : List QueuedLetter
  drawn : List ClaimToken

/-- What can happen: a call by anyone, or the next part of a process's send. -/
inductive Action (ι : Type) where
  | push (env : OutboxEnv) (recipient : String) (bytes : Bytes) (copy : Option (TrackedFile × Exchange.Visa))
  | setCapacity (db : Store) (capacity : Nat)
  | drop (env : OutboxEnv) (mode : Claimed)
  | claim (p : ι) (env : OutboxEnv) (mode : Claimed) (token : ClaimToken)
  | deliver (p : ι) (success : Bool)
  | release (p : ι) (env : OutboxEnv)
  | unclaim (p : ι)
  | crash (p : ι)

namespace World

variable [DecidableEq ι] [Crypto]

def initial (ι : Type) (owner : String) : World ι := ⟨unused owner, fun _ => none, [], []⟩

def setSend (w : World ι) (p : ι) (send : Option Sending) : World ι :=
  { w with sends := Function.update w.sends p send }

def beginSend (w : World ι) (p : ι) (env : OutboxEnv) (mode : Claimed) (token : ClaimToken) : World ι :=
  match sendClaim env mode token w.box with
  | (.ok (some (item, letter)), box) =>
    setSend { w with box, drawn := token :: w.drawn } p (some ⟨token, item, letter, .delivering⟩)
  | (_, box) => { w with box, drawn := token :: w.drawn }

def endSend (w : World ι) (p : ι) (send : Sending) (env : OutboxEnv) : World ι :=
  match sendRelease env send.token send.item w.box with
  | (.ok _, box) => setSend { w with box } p none
  | (.error _, box) => setSend { w with box } p (some { send with phase := .failing })

def exec (w : World ι) : Action ι → World ι
  | .push env recipient bytes copy => { w with box := (push env recipient bytes copy w.box).2 }
  | .setCapacity db capacity => { w with box := (setCapacity db capacity w.box).2 }
  | .drop env mode => { w with box := (dropHead env mode w.box).2 }
  | .claim p env mode token => if (w.sends p).isSome then w else w.beginSend p env mode token
  | .deliver p success =>
    match w.sends p with
    | some ⟨token, item, letter, .delivering⟩ =>
      if success then
        setSend { w with delivered := w.delivered ++ [letter] } p (some ⟨token, item, letter, .delivered⟩)
      else w.setSend p (some ⟨token, item, letter, .failing⟩)
    | _ => w
  | .release p env =>
    match w.sends p with
    | some ⟨token, item, letter, .delivered⟩ => w.endSend p ⟨token, item, letter, .delivered⟩ env
    | _ => w
  | .unclaim p =>
    match w.sends p with
    | some ⟨token, _, _, .failing⟩ => setSend { w with box := Outbox.unclaim token w.box } p none
    | _ => w
  | .crash p => w.setSend p none

def Fresh (w : World ι) : Action ι → Prop
  | .claim _ _ _ token => token ∉ w.drawn
  | _ => True

instance (w : World ι) : ∀ action, Decidable (w.Fresh action)
  | .claim _ _ _ token => inferInstanceAs (Decidable (token ∉ w.drawn))
  | .push .. | .setCapacity .. | .drop .. | .deliver .. | .release .. | .unclaim .. | .crash .. => .isTrue trivial

/-! ## §2. Claims belong to sends. -/

/-- Every claim was drawn, a claim of a running send is on its letter, the item of a send is that letter,
and a send past its delivery delivered it. -/
structure Coherent (w : World ι) : Prop where
  slot_drawn : ∀ i slot token time, w.box.table.slots i = some slot → slot.claim = some (token, time)
    → token ∈ w.drawn
  send_drawn : ∀ p send, w.sends p = some send → send.token ∈ w.drawn
  letter_eq : ∀ p send i slot, w.sends p = some send → w.box.table.slots i = some slot
    → carries send.token slot = true → slot.letter = send.letter
  item_eq : ∀ p send, w.sends p = some send → ∃ index, send.item = itemOf index send.letter
  delivered : ∀ p send, w.sends p = some send → send.phase = .delivered → send.letter ∈ w.delivered

variable {token : ClaimToken} {slot : OutboxSlot} {box : Outbox} {send : Sending}

section

omit [DecidableEq ι] [Crypto]

theorem carries_iff :
    carries token slot ↔ ∃ time, slot.claim = some (token, time) := by
  unfold carries
  cases slot.claim with
  | none => simp
  | some claim => exact ⟨fun h => ⟨claim.2, by simp at h; simp [← h]⟩, fun ⟨time, h⟩ => by simp_all⟩

theorem stillOurs_head (h : stillOurs token box) :
    0 < box.ring.size ∧ ∃ slot, box.table.slots box.ring.readIndex = some slot ∧ carries token slot := by
  unfold stillOurs at h
  simp only [Bool.and_eq_true, decide_eq_true_eq, Option.any_eq_true] at h
  obtain ⟨hstate, slot, hslot, hcarries⟩ := h
  have hsize : box.ring.size ≠ 0 := fun hzero => hstate (stateOf_empty_iff.mpr hzero)
  exact ⟨Nat.pos_of_ne_zero hsize, slot, hslot, hcarries⟩

theorem withClaim_letters (token : ClaimToken) (now : Int) (hslot : box.table.slots index = some slot)
    (i : Nat) :
    ((box.withClaim index slot token now).table.slots i).map OutboxSlot.letter
      = (box.table.slots i).map OutboxSlot.letter := by
  show (Function.update box.table.slots index _ i).map _ = _
  by_cases hi : i = index
  · subst hi
    rw [Function.update_self, hslot]
    rfl
  · rw [Function.update_of_ne hi]

theorem unclaim_letters (token : ClaimToken) (box : Outbox) (i : Nat) :
    ((Outbox.unclaim token box).table.slots i).map OutboxSlot.letter
      = (box.table.slots i).map OutboxSlot.letter := by
  show ((box.table.slots i).map _).map _ = _
  rw [Option.map_map]
  refine congrArg (fun f => (box.table.slots i).map f) (funext fun slot => ?_)
  show (if carries token slot then { slot with claim := none } else slot : OutboxSlot).letter = slot.letter
  split <;> rfl

theorem unclaim_claims (h : (Outbox.unclaim token box).table.slots i = some slot)
    (hclaim : slot.claim ≠ none) : box.table.slots i = some slot := by
  obtain ⟨before, hbefore, hslot⟩ := Option.map_eq_some_iff.mp h
  split at hslot
  next =>
    subst hslot
    exact absurd rfl hclaim
  next =>
    subst hslot
    exact hbefore

theorem coherent_initial (owner : String) [Crypto] : Coherent (initial ι owner) where
  slot_drawn _ _ _ _ h := absurd h (by simp [initial, unused])
  send_drawn _ _ h := absurd h (by simp [initial])
  letter_eq _ _ _ _ h := absurd h (by simp [initial])
  item_eq _ _ h := absurd h (by simp [initial])
  delivered _ _ h := absurd h (by simp [initial])

theorem Coherent.of_claims (h : Coherent w)
    (hclaims : ∀ i slot, box.table.slots i = some slot → slot.claim ≠ none → w.box.table.slots i = some slot) :
    Coherent { w with box } where
  slot_drawn i slot token time hslot hclaim :=
    h.slot_drawn i slot token time (hclaims i slot hslot (by simp [hclaim])) hclaim
  send_drawn := h.send_drawn
  letter_eq p send i slot hsend hslot hcarries := by
    obtain ⟨time, hclaim⟩ := carries_iff.mp hcarries
    exact h.letter_eq p send i slot hsend (hclaims i slot hslot (by simp [hclaim])) hcarries
  item_eq := h.item_eq
  delivered := h.delivered

theorem Coherent.draw (h : Coherent w) (token : ClaimToken) :
    Coherent { w with drawn := token :: w.drawn } where
  slot_drawn i slot found time hslot hclaim :=
    mem_cons_of_mem _ (h.slot_drawn i slot found time hslot hclaim)
  send_drawn p send hsend := mem_cons_of_mem _ (h.send_drawn p send hsend)
  letter_eq := h.letter_eq
  item_eq := h.item_eq
  delivered := h.delivered

end

section

omit [Crypto]

variable {w : World ι} {p : ι}

theorem setSend_none (h : (w.setSend p none).sends p' = some send) : w.sends p' = some send := by
  obtain ⟨-, hgone⟩ | ⟨-, hold⟩ := Ring.update_some h
  · cases hgone
  · exact hold

theorem setSend_some (h : (w.setSend p (some new)).sends p' = some send) :
    (p' = p ∧ send = new) ∨ w.sends p' = some send := by
  obtain ⟨hp, hnew⟩ | ⟨-, hold⟩ := Ring.update_some h
  · exact .inl ⟨hp, (Option.some.inj hnew).symm⟩
  · exact .inr hold

/-- What held of every send and holds of the new one holds of every send. -/
theorem setSend_forall {P : ι → Sending → Prop} (hnew : P p new)
    (hold : ∀ p' send, w.sends p' = some send → P p' send) (p' : ι) (send : Sending)
    (h : (w.setSend p (some new)).sends p' = some send) : P p' send := by
  rcases setSend_some h with ⟨rfl, rfl⟩ | hother
  · exact hnew
  · exact hold p' send hother

theorem Coherent.ends (h : Coherent w) (p : ι) : Coherent (w.setSend p none) where
  slot_drawn := h.slot_drawn
  send_drawn p' send hsend := h.send_drawn p' send (setSend_none hsend)
  letter_eq p' send i slot hsend := h.letter_eq p' send i slot (setSend_none hsend)
  item_eq p' send hsend := h.item_eq p' send (setSend_none hsend)
  delivered p' send hsend := h.delivered p' send (setSend_none hsend)

theorem Coherent.moves (h : Coherent w) (hsend : w.sends p = some send)
    (phase : Phase) (hphase : phase = .delivered → send.letter ∈ w.delivered) :
    Coherent (w.setSend p (some { send with phase })) where
  slot_drawn := h.slot_drawn
  send_drawn := setSend_forall (h.send_drawn p send hsend) h.send_drawn
  letter_eq p' found i slot hfound hslot hcarries := by
    rcases setSend_some hfound with ⟨rfl, rfl⟩ | hother
    · exact h.letter_eq p' send i slot hsend hslot hcarries
    · exact h.letter_eq p' found i slot hother hslot hcarries
  item_eq := setSend_forall (h.item_eq p send hsend) h.item_eq
  delivered := setSend_forall hphase h.delivered

theorem Coherent.claims (h : Coherent w) (hfresh : token ∉ w.drawn) :
    Coherent (setSend { w with box := w.box.withClaim index slot token now, drawn := token :: w.drawn } p
      (some ⟨token, itemOf index slot.letter, slot.letter, .delivering⟩)) := by
  -- the slots of the new rows: the claimed one, or one from before
  have hcases : ∀ i found, (w.box.withClaim index slot token now).table.slots i = some found →
      (found = { slot with claim := some (token, now) }) ∨ w.box.table.slots i = some found := by
    intro i found hfound
    obtain ⟨-, hnew⟩ | ⟨-, hold⟩ := Ring.update_some hfound
    · exact .inl (Option.some.inj hnew).symm
    · exact .inr hold
  refine ⟨?_, ?_, ?_, ?_, ?_⟩
  · intro i found drawn time hfound hclaim
    rcases hcases i found hfound with rfl | hold
    · obtain rfl := (Prod.mk.inj (Option.some.inj hclaim)).1
      exact (.head _)
    · exact mem_cons_of_mem _ (h.slot_drawn i found drawn time hold hclaim)
  · exact setSend_forall (.head _) fun p' send hsend => mem_cons_of_mem _ (h.send_drawn p' send hsend)
  · intro p' send i found hsend hfound hcarries
    obtain ⟨time, hclaim⟩ := carries_iff.mp hcarries
    rcases setSend_some hsend with ⟨rfl, rfl⟩ | hother
    · rcases hcases i found hfound with rfl | hold
      · rfl
      · exact absurd (h.slot_drawn i found token time hold hclaim) hfresh
    · rcases hcases i found hfound with rfl | hold
      · -- another send's token was drawn before, so it is not the new one
        have htoken : token = send.token := (Prod.mk.inj (Option.some.inj hclaim)).1
        exact absurd (htoken ▸ h.send_drawn p' send hother) hfresh
      · exact h.letter_eq p' send i found hother hold hcarries
  · exact setSend_forall ⟨index, rfl⟩ h.item_eq
  · exact setSend_forall nofun h.delivered

end

/-! ## §3. What the parts of a send do. -/

omit [DecidableEq ι] in
/-- A send claims the letter at the read pointer, or does what any other transaction may. -/
theorem sendClaim_cases (env : OutboxEnv) (mode : Claimed) (token : ClaimToken) (box : Outbox) :
    (∃ slot, 0 < box.ring.size ∧ box.table.slots box.ring.readIndex = some slot
      ∧ sendClaim env mode token box = (.ok (some (itemOf box.ring.readIndex slot.letter, slot.letter)),
            box.withClaim box.ring.readIndex slot token env.now))
      ∨ (∀ found, (sendClaim env mode token box).1 ≠ .ok (some found))
        ∧ Effect box (sendClaim env mode token box).2 := by
  unfold sendClaim claimHead
  split
  next found claimed hclaim =>
    split at hclaim
    next =>
      cases hclaim
      exact .inr ⟨fun found h => absurd h (by simp), .unchanged⟩
    next hstate =>
      obtain ⟨-, hclaim⟩ := else_ok hclaim
      split at hclaim
      next => cases hclaim
      next slot hslot =>
        split at hclaim
        next => cases hclaim
        next =>
          cases hclaim
          have hsize : box.ring.size ≠ 0 := fun h => hstate (stateOf_empty_iff.mpr h)
          exact .inl ⟨slot, Nat.pos_of_ne_zero hsize, hslot, rfl⟩
  next => exact .inr ⟨fun found h => absurd h (by simp), .unchanged⟩
  next recipient denied _ =>
    refine .inr ⟨fun found h => ?_, refuse_effect env recipient denied box⟩
    unfold refuse at h
    split at h <;> cases h

omit [DecidableEq ι] in
/-- The last transaction frees the head if it carries the claim, and does nothing otherwise. -/
theorem sendRelease_cases (env : OutboxEnv) (token : ClaimToken) (item : QueuedItem) (box : Outbox) :
    (∃ timeline, stillOurs token box
      ∧ box.note env .letterSent .success (slotDetails item) = .ok timeline
      ∧ sendRelease env token item box = (.ok (), { box.releaseHead box.ring true with timeline }))
      ∨ (stillOurs token box = false ∧ sendRelease env token item box = (.ok (), box))
      ∨ ∃ e, sendRelease env token item box = (.error e, box) := by
  unfold sendRelease
  rcases Op.transact_cases (sendReleaseBody env token item) box with ⟨u, after, hbody, hrun⟩ | ⟨e, hrun⟩
  · rw [hrun]
    unfold sendReleaseBody at hbody
    split at hbody
    next hours =>
      obtain ⟨timeline, hnoted, hbody⟩ := try_ok hbody
      cases hbody
      exact .inl ⟨timeline, hours, hnoted, rfl⟩
    next hours =>
      cases hbody
      exact .inr (.inl ⟨by simpa using hours, rfl⟩)
  · exact .inr (.inr ⟨e, hrun⟩)

/-! ## §4. Every step is a step of the queue. -/

/-- The world shows a queue whose delivered letters are those of the world. -/
structure Refines (w : World ι) (q : Fifo QueuedLetter) : Prop where
  shows : Shows w.box q
  delivered : q.delivered = w.delivered
  coherent : Coherent w

variable {w : World ι}

omit [DecidableEq ι] in
theorem Refines.effect (h : Refines w q)
    (heffect : Effect w.box box) : ∃ q', Fifo.Step q q' ∧ Refines { w with box } q' := by
  obtain ⟨q', hstep, hdelivered, hshows⟩ := heffect.simulates h.shows
  exact ⟨q', hstep, hshows, hdelivered.trans h.delivered,
    h.coherent.of_claims fun i slot hslot hclaim => heffect.claims hslot hclaim⟩

theorem Refines.beginSend (h : Refines w q) (p : ι) (env : OutboxEnv)
    (mode : Claimed) (hfresh : token ∉ w.drawn) :
    ∃ q', Fifo.Step q q' ∧ Refines (w.beginSend p env mode token) q' := by
  unfold World.beginSend
  rcases sendClaim_cases env mode token w.box with ⟨slot, hsize, hslot, hrun⟩ | ⟨hnone, heffect⟩
  · rw [hrun]
    exact ⟨q, .stay q, h.shows.relabel (withClaim_letters token env.now hslot), h.delivered, h.coherent.claims hfresh⟩
  · obtain ⟨q', hstep, hrefines⟩ := h.effect heffect
    refine ⟨q', hstep, ?_⟩
    split
    next found box hrun => exact absurd (congrArg Prod.fst hrun) (hnone _)
    next box _ hrun =>
      rw [hrun] at hrefines
      exact ⟨hrefines.shows, hrefines.delivered, hrefines.coherent.draw token⟩

theorem Refines.endSend (h : Refines w q) (hsend : w.sends p = some send)
    (hdelivered : send.phase = .delivered) (env : OutboxEnv) :
    ∃ q', Fifo.Step q q' ∧ Refines (w.endSend p send env) q' := by
  unfold World.endSend
  rcases sendRelease_cases env send.token send.item w.box with
    ⟨timeline, hours, hnoted, hrun⟩ | ⟨-, hrun⟩ | ⟨e, hrun⟩
  · obtain ⟨hsize, slot, hslot, hcarries⟩ := stillOurs_head hours
    have hletter : slot.letter = send.letter := h.coherent.letter_eq p send _ slot hsend hslot hcarries
    obtain ⟨index, hitem⟩ := h.coherent.item_eq p send hsend
    rw [hitem, ← hletter] at hnoted
    obtain ⟨rest, hfirst, hshows⟩ := h.shows.release true hsize hslot hnoted
    have hmem : slot.letter ∈ q.delivered := by
      rw [hletter, h.delivered]
      exact h.coherent.delivered p send hsend hdelivered
    have hcoherent : Coherent { w with box := { w.box.releaseHead w.box.ring true with timeline } } :=
      h.coherent.of_claims fun i found hfound _ => (releaseHead_slots w.box.ring true hfound).2
    rw [hrun]
    exact ⟨_, .send q slot.letter rest hfirst hmem, hshows, h.delivered, hcoherent.ends p⟩
  · rw [hrun]
    exact ⟨q, .stay q, h.shows, h.delivered, h.coherent.ends p⟩
  · rw [hrun]
    exact ⟨q, .stay q, h.shows, h.delivered, h.coherent.moves hsend .failing (by simp)⟩

/-- **Every step is a step of the queue.** -/
theorem step_simulates (h : Refines w q) (hfresh : w.Fresh action) :
    ∃ q', Fifo.Step q q' ∧ Refines (w.exec action) q' := by
  have hstay : ∃ q', Fifo.Step q q' ∧ Refines w q' := ⟨q, .stay q, h⟩
  cases action with
  | push env recipient bytes copy => exact h.effect push_effect
  | setCapacity db capacity => exact h.effect setCapacity_effect
  | drop env mode => exact h.effect dropHead_effect
  | claim p env mode =>
    simp only [exec]
    split
    next => exact hstay
    next => exact h.beginSend p env mode hfresh
  | deliver p success =>
    simp only [exec]
    split
    next token item letter hsend =>
      cases success with
      | true =>
        have hmoved : Coherent { w with delivered := w.delivered ++ [letter] } :=
          ⟨h.coherent.slot_drawn, h.coherent.send_drawn, h.coherent.letter_eq, h.coherent.item_eq,
            fun p' send hsend' hphase => mem_append_left _ (h.coherent.delivered p' send hsend' hphase)⟩
        refine ⟨_, .deliver q letter, h.shows.deliver letter, ?_, ?_⟩
        · show q.delivered ++ [letter] = w.delivered ++ [letter]
          rw [h.delivered]
        · exact hmoved.moves hsend .delivered fun _ => mem_concat_self
      | false =>
        exact ⟨q, .stay q, h.shows, h.delivered, h.coherent.moves hsend .failing (by simp)⟩
    next => exact hstay
  | release p env =>
    simp only [exec]
    split
    next token item letter hsend => exact h.endSend hsend rfl env
    next => exact hstay
  | unclaim p =>
    simp only [exec]
    split
    next token item letter hsend =>
      refine ⟨q, .stay q, h.shows.relabel (unclaim_letters token w.box), h.delivered, ?_⟩
      exact (h.coherent.of_claims fun i slot hslot hclaim => unclaim_claims hslot hclaim).ends p
    next => exact hstay
  | crash p => exact ⟨q, .stay q, h.shows, h.delivered, h.coherent.ends p⟩

/-! ## §5. Every run is a run of the queue. -/

/-- **The steps of one process are `send_head`**: taken with none in between they leave the box as it does. -/
theorem run_alone (w : World ι) (p : ι) (hidle : w.sends p = none) (claimEnv releaseEnv : OutboxEnv)
    (mode : Claimed) (token : ClaimToken) (deliver : QueuedItem → Bytes → Except Error Unit) :
    ∃ success, (Runs.run exec w [.claim p claimEnv mode token, .deliver p success, .release p releaseEnv,
        .unclaim p]).box = (sendHead claimEnv releaseEnv mode token deliver w.box).2 := by
  simp only [Runs.run, foldl_cons, foldl_nil]
  unfold sendHead
  rcases hclaim : sendClaim claimEnv mode token w.box with ⟨result, claimed⟩
  have hbegin : w.exec (.claim p claimEnv mode token) = w.beginSend p claimEnv mode token := by
    simp [exec, hidle]
  rw [hbegin, World.beginSend, hclaim]
  cases result with
  | error e => exact ⟨true, by simp [exec, hidle]⟩
  | ok found =>
    cases found with
    | none => exact ⟨true, by simp [exec, hidle]⟩
    | some found =>
      obtain ⟨item, letter⟩ := found
      cases hdeliver : deliver item letter.content with
      | error e => exact ⟨false, by simp [exec, setSend, hdeliver]⟩
      | ok u =>
        refine ⟨true, ?_⟩
        rcases hrelease : sendRelease releaseEnv token item claimed with ⟨result, released⟩
        cases result with
        | ok u => simp [exec, setSend, World.endSend, hdeliver, hrelease]
        | error e => simp [exec, setSend, World.endSend, hdeliver, hrelease]

end World

namespace Sample

attribute [local instance] Crypto.toy

def key (n : Nat) : Digest := .ofNat 32 n

/-- A store that knows `A` and `B`. -/
def db : Store :=
  { hardwareKeys := [⟨1, "A", .encryption, "a", (key 1).bytes, false⟩,
      ⟨2, "B", .encryption, "b", (key 2).bytes, false⟩] }

def at_ (now : Nat) : OutboxEnv := ⟨db, now, "2026-01-01T00:00:00Z", .ofNat 16 now⟩

/-- A letter sealed to `B`. -/
def letterForB : Bytes := Letter.magic ++ ([Letter.version] ++ ([13] ++ ((key 2).bytes ++ [0, 0, 0, 0])))

def token (n : Nat) : ClaimToken := .ofNat 12 n

end Sample

end KeyQuorum.Outbox
