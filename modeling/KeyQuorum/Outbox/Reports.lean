/-
  **IS A REPORTED SEND A FINISHED SEND?**

  A send whose claim is gone when it comes to free the slot reports success
  all the same, on the ground that a later send took and freed the letter.
  A later send may have taken it and not freed it.
-/
import KeyQuorum.Outbox.Senders

namespace KeyQuorum.Outbox

open List Foundation

namespace World

variable [DecidableEq ι] [Crypto]

/-! ## §1. Reports. -/

/-- The letter a send returns `Ok` with at a step. -/
def reports (w : World ι) : Action ι → Option QueuedLetter
  | .release p env =>
    match w.sends p with
    | some ⟨token, item, letter, .delivered⟩ =>
      match (sendRelease env token item w.box).1 with
      | .ok _ => some letter
      | .error _ => none
    | _ => none
  | _ => none

/-- A send claims the head only when no send that may still report it is running. -/
def Alone (w : World ι) : Action ι → Prop
  | .claim _ _ _ _ => ∀ slot, w.box.table.slots w.box.ring.readIndex = some slot →
      ∀ p send, w.sends p = some send → send.phase ≠ .failing → send.letter ≠ slot.letter
  | _ => True

/-! ## §2. One send per letter. -/

/-- The letter of a send that may still report is held nowhere, or at the head under that send's claim. -/
structure Single (w : World ι) : Prop where
  at_head : ∀ p send, w.sends p = some send → send.phase ≠ .failing → ∀ i slot,
    w.box.table.slots i = some slot → slot.letter = send.letter →
    i = w.box.ring.readIndex ∧ carries send.token slot = true
  tokens : ∀ p p' send send', w.sends p = some send → w.sends p' = some send' → send.token = send'.token →
    p = p'
  known : ∀ p send, w.sends p = some send → send.letter.serial < w.box.queued

omit [DecidableEq ι] [Crypto] in
theorem single_initial (owner : String) [Crypto] : Single (initial ι owner) where
  at_head _ _ h := absurd h (by simp [initial])
  tokens _ _ _ _ h := absurd h (by simp [initial])
  known _ _ h := absurd h (by simp [initial])

variable {w : World ι}

omit [DecidableEq ι] in
theorem Refines.letters (h : Refines w q) (hlawful : q.Lawful) :
    (∀ i j a b, w.box.table.slots i = some a → w.box.table.slots j = some b → a.letter = b.letter → i = j)
      ∧ ∀ i a, w.box.table.slots i = some a → a.letter.serial < w.box.queued := by
  have hserials : (q.allQueued.map QueuedLetter.serial).Nodup := by
    rw [h.shows.serials]
    exact nodup_range
  have hheld : (w.box.held).Nodup := by
    have hqueued := List.Nodup.of_map QueuedLetter.serial hserials
    rw [hlawful.order, h.shows.held] at hqueued
    exact List.Nodup.of_append_right hqueued
  refine ⟨fun i j a b hi hj hab => h.shows.full.slot_inj hheld hi hj hab, fun i a ha => ?_⟩
  have hmem : a.letter ∈ q.allQueued := by
    rw [hlawful.order, h.shows.held]
    exact mem_append_right _ (mem_map_of_mem (h.shows.full.mem_contents ha))
  have hserial := mem_map_of_mem (f := QueuedLetter.serial) hmem
  rw [h.shows.serials] at hserial
  exact mem_range.mp hserial

omit [DecidableEq ι] in
theorem Single.effect (h : Single w) (hrefines : Refines w q) {box : Outbox} (heffect : Effect w.box box) :
    Single { w with box } := by
  cases heffect with
  | unchanged => exact h
  | refused => exact ⟨h.at_head, h.tokens, h.known⟩
  | queued env letter room timeline serial =>
    refine ⟨fun p send hsend hphase i slot hslot hletter => ?_, h.tokens, fun p send hsend => ?_⟩
    · obtain ⟨-, hnew⟩ | ⟨-, hold⟩ := Ring.update_some hslot
      · -- the new letter was not queued before, so no send is on it
        cases hnew
        have hknown := h.known p send hsend
        rw [← hletter, serial] at hknown
        exact absurd hknown (Nat.lt_irrefl _)
      · exact h.at_head p send hsend hphase i slot hold hletter
    · exact Nat.lt_succ_of_lt (h.known p send hsend)
  | dropped =>
    refine ⟨fun p send hsend hphase i slot hslot hletter => ?_, h.tokens, h.known⟩
    obtain ⟨hi, hold⟩ := releaseHead_slots w.box.ring false hslot
    exact absurd (h.at_head p send hsend hphase i slot hold hletter).1 hi
  | resized capacity pos idle =>
    refine ⟨fun p send hsend hphase i slot hslot hletter => ?_, h.tokens, h.known⟩
    have hnone : w.box.table.slots i = none := slots_of_idle hrefines.shows.full idle i
    exact absurd (hnone.symm.trans hslot) (by simp)

section

omit [Crypto]

variable {w : World ι}

theorem Single.ends (h : Single w) (p : ι) : Single (w.setSend p none) where
  at_head p' send hsend := h.at_head p' send (setSend_none hsend)
  tokens p' p'' send send' hsend hsend' := h.tokens p' p'' send send' (setSend_none hsend) (setSend_none hsend')
  known p' send hsend := h.known p' send (setSend_none hsend)

theorem Single.moves (h : Single w) (hsend : w.sends p = some send) (phase : Phase)
    (hphase : phase ≠ .failing → send.phase ≠ .failing) :
    Single (w.setSend p (some { send with phase })) where
  at_head p' found hfound hreporting := by
    rcases setSend_some hfound with ⟨rfl, rfl⟩ | hother
    · exact h.at_head p' send hsend (hphase hreporting)
    · exact h.at_head p' found hother hreporting
  tokens p' p'' found found' hfound hfound' htoken := by
    rcases setSend_some hfound with ⟨rfl, rfl⟩ | hother <;>
      rcases setSend_some hfound' with ⟨rfl, rfl⟩ | hother'
    · rfl
    · exact h.tokens p' p'' send found' hsend hother' htoken
    · exact h.tokens p' p'' found send hother hsend htoken
    · exact h.tokens p' p'' found found' hother hother' htoken
  known := setSend_forall (h.known p send hsend) h.known

theorem Single.claims (h : Single w) (hcoherent : Coherent w)
    (hslot : w.box.table.slots w.box.ring.readIndex = some slot)
    (hunique : ∀ i a, w.box.table.slots i = some a → a.letter = slot.letter → i = w.box.ring.readIndex)
    (hknown : slot.letter.serial < w.box.queued) (hfresh : token ∉ w.drawn)
    (halone : ∀ p' send, w.sends p' = some send → send.phase ≠ .failing → send.letter ≠ slot.letter) :
    Single (setSend { w with
        box := w.box.withClaim w.box.ring.readIndex slot token now, drawn := token :: w.drawn } p
      (some ⟨token, itemOf w.box.ring.readIndex slot.letter, slot.letter, .delivering⟩)) := by
  have hother : ∀ {p' : ι} {send : Sending}, w.sends p' = some send → send.token ≠ token :=
    fun hsend heq => hfresh (heq ▸ hcoherent.send_drawn _ _ hsend)
  refine ⟨fun p' send hsend hphase i found hfound hletter => ?_, ?_, ?_⟩
  · -- the letters of the rows are those of before
    obtain ⟨before, hbefore, hsame⟩ : ∃ before, w.box.table.slots i = some before
        ∧ before.letter = found.letter := by
      have hletters := withClaim_letters token now hslot i
      have hfound' : (w.box.withClaim w.box.ring.readIndex slot token now).table.slots i = some found := hfound
      rw [hfound'] at hletters
      exact Option.map_eq_some_iff.mp hletters.symm
    rcases setSend_some hsend with ⟨rfl, rfl⟩ | hold
    · obtain rfl := hunique i before hbefore (hsame.trans hletter)
      have hclaimed : (w.box.withClaim w.box.ring.readIndex slot token now).table.slots w.box.ring.readIndex
          = some { slot with claim := some (token, now) } := Function.update_self ..
      obtain rfl := Option.mem_unique hclaimed hfound
      exact ⟨rfl, carries_iff.mpr ⟨now, rfl⟩⟩
    · obtain ⟨rfl, -⟩ := h.at_head p' send hold hphase i before hbefore (hsame.trans hletter)
      obtain rfl := Option.mem_unique hslot hbefore
      exact absurd (hsame.trans hletter).symm (halone p' send hold hphase)
  · intro p' p'' send send' hsend hsend' htoken
    rcases setSend_some hsend with ⟨rfl, rfl⟩ | hold <;>
      rcases setSend_some hsend' with ⟨rfl, rfl⟩ | hold'
    · rfl
    · exact absurd htoken.symm (hother hold')
    · exact absurd htoken (hother hold)
    · exact h.tokens p' p'' send send' hold hold' htoken
  · exact setSend_forall hknown h.known

theorem Single.unclaims (h : Single w) (hsend : w.sends p = some send) :
    Single (setSend { w with box := Outbox.unclaim send.token w.box } p none) := by
  refine ⟨fun p' found hfound hphase i slot hslot hletter => ?_, ?_, ?_⟩
  · have hold : w.sends p' = some found := setSend_none hfound
    have hne : found.token ≠ send.token := by
      intro heq
      obtain rfl := h.tokens p' p found send hold hsend heq
      obtain ⟨-, hgone⟩ | ⟨hother, -⟩ := Ring.update_some hfound
      · cases hgone
      · exact hother rfl
    obtain ⟨before, hbefore, hafter⟩ := Option.map_eq_some_iff.mp hslot
    have hsame : before.letter = slot.letter := by
      rw [← hafter]
      split <;> rfl
    obtain ⟨hi, hcarries⟩ := h.at_head p' found hold hphase i before hbefore (hsame.trans hletter)
    refine ⟨hi, ?_⟩
    -- the slot carries the other send's claim, so it is not touched
    have hkept : carries send.token before = false := by
      obtain ⟨time, hclaim⟩ := carries_iff.mp hcarries
      unfold carries
      rw [hclaim]
      simpa using hne
    rw [hkept] at hafter
    obtain rfl : before = slot := hafter
    exact hcarries
  · intro p' p'' found found' hfound hfound'
    exact h.tokens p' p'' found found' (setSend_none hfound) (setSend_none hfound')
  · intro p' found hfound
    exact h.known p' found (setSend_none hfound)

end

theorem Single.endSend (h : Single w) (hsend : w.sends p = some send) (env : OutboxEnv) :
    Single (w.endSend p send env) := by
  unfold World.endSend
  rcases sendRelease_cases env send.token send.item w.box with
    ⟨timeline, -, -, hrun⟩ | ⟨-, hrun⟩ | ⟨e, hrun⟩
  · have hfreed : Single { w with box := { w.box.releaseHead w.box.ring true with timeline } } := by
      refine ⟨fun p' found hfound hphase i slot hslot hletter => ?_, h.tokens, h.known⟩
      obtain ⟨hi, hold⟩ := releaseHead_slots w.box.ring true hslot
      exact absurd (h.at_head p' found hfound hphase i slot hold hletter).1 hi
    rw [hrun]
    exact hfreed.ends p
  · rw [hrun]
    exact h.ends p
  · rw [hrun]
    exact h.moves hsend .failing fun hne => absurd rfl hne

/-! ## §3. Steps and runs. -/

def Tidy (w : World ι) : Prop := (∃ q : Fifo QueuedLetter, Refines w q ∧ q.Lawful) ∧ Single w

theorem Tidy.step (h : Tidy w) (action : Action ι) (hfresh : w.Fresh action)
    (halone : w.Alone action) : Tidy (w.exec action) := by
  obtain ⟨⟨q, hrefines, hlawful⟩, hsingle⟩ := h
  obtain ⟨q', hstep, hrefines'⟩ := step_simulates hrefines hfresh
  refine ⟨⟨q', hrefines', hstep.lawful hlawful⟩, ?_⟩
  cases action with
  | push env recipient bytes copy => exact hsingle.effect hrefines push_effect
  | setCapacity db capacity => exact hsingle.effect hrefines setCapacity_effect
  | drop env mode => exact hsingle.effect hrefines dropHead_effect
  | claim p env mode token =>
    simp only [exec]
    split
    next => exact hsingle
    next =>
      unfold World.beginSend
      rcases sendClaim_cases env mode token w.box with ⟨slot, -, hslot, hrun⟩ | ⟨hnone, heffect⟩
      · obtain ⟨hunique, hknown⟩ := hrefines.letters hlawful
        rw [hrun]
        exact hsingle.claims hrefines.coherent hslot (fun i a ha hletter => hunique i _ a slot ha hslot hletter)
          (hknown _ slot hslot) hfresh (halone slot hslot)
      · have hafter := hsingle.effect hrefines heffect
        split
        next found box hrun => exact absurd (congrArg Prod.fst hrun) (hnone _)
        next box _ hrun =>
          rw [hrun] at hafter
          exact ⟨hafter.at_head, hafter.tokens, hafter.known⟩
  | deliver p success =>
    simp only [exec]
    split
    next token item letter hsend =>
      cases success with
      | true =>
        have hmoved : Single { w with delivered := w.delivered ++ [letter] } :=
          ⟨hsingle.at_head, hsingle.tokens, hsingle.known⟩
        exact hmoved.moves hsend .delivered fun _ => by simp
      | false => exact hsingle.moves hsend .failing fun hne => absurd rfl hne
    next => exact hsingle
  | release p env =>
    simp only [exec]
    split
    next token item letter hsend => exact hsingle.endSend hsend env
    next => exact hsingle
  | unclaim =>
    simp only [exec]
    split
    next token item letter hsend => exact hsingle.unclaims hsend
    next => exact hsingle
  | crash p => exact hsingle.ends p

/-- **What a send knows when it reports.**  With one send per letter, the letter is no longer held. -/
theorem report_gone (htidy : Tidy w) (hreport : w.reports action = some letter)
    (hslot : (w.exec action).box.table.slots i = some slot) : slot.letter ≠ letter := by
  intro hletter
  obtain ⟨⟨q, hrefines, -⟩, h⟩ := htidy
  cases action with
  | release p env =>
    simp only [reports] at hreport
    simp only [exec] at hslot
    split at hreport
    next token item sent hsend =>
      rw [hsend] at hslot
      simp only [World.endSend] at hslot
      rcases sendRelease_cases env token item w.box with
        ⟨timeline, -, -, hrun⟩ | ⟨hgone, hrun⟩ | ⟨e, hrun⟩
      · rw [hrun] at hreport hslot
        cases hreport
        obtain ⟨hi, hold⟩ := releaseHead_slots w.box.ring true hslot
        exact hi (h.at_head p _ hsend (by simp) i slot hold hletter).1
      · -- the claim is gone, so the letter is not held under it, and it could be held no other way
        rw [hrun] at hreport hslot
        cases hreport
        obtain ⟨rfl, hcarries⟩ := h.at_head p _ hsend (by simp) i slot hslot hletter
        have hhead : w.box.table.slots w.box.ring.readIndex = some slot := hslot
        have hstate : stateOf w.box.ring ≠ .empty := fun hempty =>
          absurd hhead (by
            rw [slots_of_idle hrefines.shows.full (stateOf_empty_iff.mp hempty)]
            simp)
        unfold stillOurs at hgone
        rw [hhead] at hgone
        simp [hstate, hcarries] at hgone
      · rw [hrun] at hreport
        cases hreport
    next => cases hreport
  | push | setCapacity | drop | claim | deliver | unclaim | crash => exact absurd hreport (by simp [reports])

/-- **A reported send is a finished send**, in every run in which no send claims a letter that another
send may still report. -/
theorem run_reports_finished (owner : String) (actions : List (Action ι))
    (hruns : Runs.Along exec (fun w action => w.Fresh action ∧ w.Alone action) (initial ι owner) actions)
    (n : Nat) (action : Action ι) (hnext : actions[n]? = some action) (letter : QueuedLetter)
    (hreport : (Runs.run exec (initial ι owner) (actions.take n)).reports action = some letter) (i : Nat)
    (slot : OutboxSlot)
    (hslot : (Runs.run exec (initial ι owner) (actions.take (n + 1))).box.table.slots i = some slot) :
    slot.letter ≠ letter := by
  have hstart : Tidy (initial ι owner) :=
    ⟨⟨Fifo.new defaultCapacity, ⟨shows_unused owner, rfl, coherent_initial owner⟩, Fifo.lawful_new _⟩,
      single_initial owner⟩
  have htidy := hruns.always (fun w action h hcond => h.step action hcond.1 hcond.2) hstart n
  rw [take_add_one, hnext, Option.toList_some, Runs.run, foldl_append] at hslot
  exact report_gone htidy hreport hslot

end World

namespace Sample

attribute [local instance] Crypto.toy

def oneSend : List (Action Bool) :=
  [.push (at_ 1) "B" letterForB none, .claim false (at_ 2) .respect (token 1), .deliver false true,
    .release false (at_ 3)]

def firstLetter : QueuedLetter := ⟨0, 13, "B", letterForB, sha256 letterForB⟩

theorem one_send_finished :
    (Runs.run World.exec (World.initial Bool "A") (oneSend.take 3)).reports (.release false (at_ 3))
        = some firstLetter
      ∧ ∀ slot, (Runs.run World.exec (World.initial Bool "A") (oneSend.take (3 + 1))).box.table.slots 0
        = some slot →
        slot.letter ≠ firstLetter := by
  have hreport : (Runs.run World.exec (World.initial Bool "A") (oneSend.take 3)).reports
      (.release false (at_ 3)) = some firstLetter := by
    decide +kernel
  have hruns : Runs.Along World.exec (fun w action => w.Fresh action ∧ w.Alone action)
      (World.initial Bool "A") oneSend := by
    refine ⟨⟨trivial, trivial⟩, ⟨by decide +kernel, ?_⟩, ⟨trivial, trivial⟩, ⟨trivial, trivial⟩, trivial⟩
    intro slot _ p send hsend
    exact absurd hsend (by simp [World.exec, World.initial])
  have hnext : oneSend[3]? = some (.release false (at_ 3)) := rfl
  exact ⟨hreport, fun slot hslot =>
    World.run_reports_finished "A" oneSend hruns 3 _ hnext firstLetter hreport 0 slot hslot⟩

/-- The first send of a letter is taken over by a second; the first then ends. -/
def overtaken : List (Action Bool) :=
  [.push (at_ 1) "B" letterForB none, .claim false (at_ 2) .respect (token 1),
    .claim true (at_ 3) .takeOver (token 2), .deliver false true, .release false (at_ 4),
    .deliver true false, .unclaim true]

/-- **A send reports a letter that is still held.**  The second send fails, and the letter stays queued. -/
theorem reported_and_held :
    (Runs.run World.exec (World.initial Bool "A") (overtaken.take 4)).reports (.release false (at_ 4))
        = some firstLetter
      ∧ (Runs.run World.exec (World.initial Bool "A") (overtaken.take 5)).box.table.slots 0
        = some ⟨firstLetter, some (token 2, 3)⟩
      ∧ (Runs.run World.exec (World.initial Bool "A") overtaken).box.table.slots 0 = some ⟨firstLetter, none⟩
      ∧ (Runs.run World.exec (World.initial Bool "A") overtaken).box.sentTotal = 0 := by
  decide +kernel

end Sample

end KeyQuorum.Outbox
