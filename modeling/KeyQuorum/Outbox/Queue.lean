/-
  **WHAT THE TRANSACTIONS DO TO THE QUEUE.**

  An outbox shows a bounded queue of letters: the slots of the window hold
  it in order, `sent_total` counts what was sent, and the timeline tells
  exactly its log, refusals apart.
-/
import KeyQuorum.Foundation.Fifo
import KeyQuorum.Outbox

namespace KeyQuorum.Outbox

open List Foundation

/-! ## §1. Rings and tables. -/

variable {r : Ring} {capacity : Nat}

theorem stateOf_empty_iff : stateOf r = .empty ↔ r.size = 0 := by
  unfold stateOf
  split
  next h => simp [h]
  next h => split <;> simp [h]

theorem room_of_not_full (h : stateOf r ≠ .full) : r.size < r.capacity := by
  have hcapacity := Nat.zero_lt_of_lt r.read_lt
  unfold stateOf at h
  split at h
  next hzero => omega
  next =>
    split at h
    next => exact absurd rfl h
    next hlt => exact Nat.lt_of_not_le hlt

theorem ensure_ring (box : Outbox) : box.table.ensure defaultCapacity = .ok box.ring := by
  unfold RingTable.ensure ring
  cases box.table.ring with
  | none => rfl
  | some r => rfl

theorem ring_of_size {box : Outbox} (h : 0 < box.ring.size) : box.table.ring = some box.ring := by
  unfold ring at h ⊢
  cases hring : box.table.ring with
  | none =>
    rw [hring] at h
    exact absurd h (Nat.lt_irrefl 0)
  | some r => rfl

theorem resize_ok {t : RingTable OutboxSlot} (h : t.resize capacity = .ok (true, t')) :
    (∀ r, t.ring = some r → r.size = 0)
      ∧ ∃ pos, t' = { ring := some (Ring.new capacity pos), slots := t.slots } := by
  obtain ⟨r, hr, h⟩ := try_ok h
  split at h
  next => exact absurd (congrArg Prod.fst (Except.ok.inj h)) (by simp)
  next hsize =>
    split at h
    next pos =>
      obtain rfl := (Prod.mk.inj (Except.ok.inj h)).2
      refine ⟨fun found hfound => ?_, pos, rfl⟩
      unfold RingTable.ensure at hr
      rw [hfound] at hr
      cases hr
      omega
    next => cases h

/-! ## §2. What a transaction does. -/

section Effects

variable [Crypto]

def withLetter (box : Outbox) (room : box.ring.size < box.ring.capacity) (letter : QueuedLetter)
    (timeline : Timeline) : Outbox :=
  { box with
    table := ⟨some (box.ring.advance room),
      Function.update box.table.slots box.ring.writeIndex (some ⟨letter, none⟩)⟩
    timeline
    queued := box.queued + 1 }

inductive Effect (box : Outbox) : Outbox → Prop
  | unchanged : Effect box box
  | refused (env : OutboxEnv) (recipient : String) (denied : Denied) (refusals : List (String × Denied))
      (timeline : Timeline)
      (noted : box.note env .letterRefused .denied (refusalDetails recipient denied) = .ok timeline) :
      Effect box { box with timeline, refusals }
  | queued (env : OutboxEnv) (letter : QueuedLetter) (room : box.ring.size < box.ring.capacity)
      (timeline : Timeline) (serial : letter.serial = box.queued)
      (noted : box.note env .letterQueued .success (slotDetails (itemOf box.ring.writeIndex letter))
        = .ok timeline) :
      Effect box (box.withLetter room letter timeline)
  | dropped (env : OutboxEnv) (slot : OutboxSlot) (timeline : Timeline) (some_held : 0 < box.ring.size)
      (head : box.table.slots box.ring.readIndex = some slot)
      (noted : box.note env .letterDropped .info (slotDetails (itemOf box.ring.readIndex slot.letter))
        = .ok timeline) :
      Effect box { box.releaseHead box.ring false with timeline }
  | resized (capacity : Nat) (pos : 0 < capacity) (idle : box.ring.size = 0) :
      Effect box { box with table := ⟨some (Ring.new capacity pos), box.table.slots⟩ }

theorem refuse_effect (env : OutboxEnv) (recipient : String) (denied : Denied) (box : Outbox) :
    Effect box (refuse (α := α) env recipient denied box).2 := by
  unfold refuse
  rcases Op.transact_cases (writeRefusal env recipient denied) box with ⟨u, after, hbody, hrun⟩ | ⟨e, hrun⟩
  · rw [hrun]
    obtain ⟨timeline, hnoted, hbody⟩ := try_ok hbody
    cases hbody
    exact .refused env recipient denied _ timeline hnoted
  · rw [hrun]
    exact .unchanged

variable {box' : Outbox} {slot : OutboxSlot} {recipient : String} {log : List (Fifo.Entry QueuedLetter)}
  {slots : Nat → Option OutboxSlot} {i : Nat}

theorem queueBody_effect (h : queueBody env recipient bytes kind box = .ok (item, box')) :
    Effect box box' := by
  unfold queueBody at h
  rw [ensure_ring, except_ok_bind] at h
  obtain ⟨hstate, h⟩ := else_ok h
  have hroom := room_of_not_full hstate
  obtain ⟨written, hwritten, h⟩ := try_ok h
  obtain ⟨table, htable, h⟩ := try_ok h
  obtain ⟨found, hfound, h⟩ := try_ok h
  obtain ⟨timeline, hnoted, h⟩ := try_ok h
  cases h
  obtain rfl := RingTable.insertSlot_ok hwritten
  unfold RingTable.advanceWrite at htable
  rw [dif_pos hroom] at htable
  cases htable
  have hitem := okOr_ok hfound
  simp only [itemAt, Function.update_self, Option.map_some, Option.some.injEq] at hitem
  subst hitem
  exact .queued env ⟨box.queued, kind, recipient, bytes, sha256 bytes⟩ hroom timeline rfl hnoted

theorem queueOrRefuse_effect (env : OutboxEnv) (recipient : String) (bytes : Bytes) (kind : UInt8)
    (box : Outbox) : Effect box (queueOrRefuse env recipient bytes kind box).2 := by
  have hqueue : Effect box (queue env recipient bytes kind box).2 := by
    unfold queue
    rcases Op.transact_cases (queueBody env recipient bytes kind) box with
      ⟨item, after, hbody, hrun⟩ | ⟨e, hrun⟩
    · rw [hrun]
      exact queueBody_effect hbody
    · rw [hrun]
      exact .unchanged
  unfold queueOrRefuse
  split
  next unchanged hrun =>
    -- a transaction that failed left the rows as they were
    have hsame : unchanged = box := by
      have hatomic := Op.Atomic.transact (queueBody env recipient bytes kind) box .outboxFull
        (congrArg Prod.fst hrun)
      exact (congrArg Prod.snd hrun).symm.trans hatomic
    rw [hsame]
    exact refuse_effect ..
  next => exact hqueue

theorem push_effect : Effect box (push env recipient bytes copy box).2 := by
  unfold push
  split
  next => exact .unchanged
  next =>
    split
    next => exact queueOrRefuse_effect ..
    next => exact refuse_effect ..

theorem setCapacity_effect : Effect box (setCapacity db capacity box).2 := by
  unfold setCapacity
  split
  next => exact .unchanged
  next =>
    split
    next => exact .unchanged
    next =>
      rcases Op.transact_cases (setCapacityBody capacity) box with ⟨r, after, hbody, hrun⟩ | ⟨e, hrun⟩
      · rw [hrun]
        obtain ⟨⟨resized, table⟩, hresize, hbody⟩ := try_ok hbody
        cases resized with
        | false => cases hbody
        | true =>
          obtain ⟨found, hfound, hbody⟩ := try_ok hbody
          cases hbody
          obtain ⟨hidle, pos, rfl⟩ := resize_ok hresize
          refine .resized capacity pos ?_
          unfold ring
          cases hring : box.table.ring with
          | none => rfl
          | some r => exact hidle r hring
      · rw [hrun]
        exact .unchanged

theorem dropHead_effect : Effect box (dropHead env mode box).2 := by
  unfold dropHead
  rcases Op.transact_cases (dropBody env mode) box with ⟨item, after, hbody, hrun⟩ | ⟨e, hrun⟩
  · rw [hrun]
    unfold dropBody at hbody
    split at hbody
    next =>
      cases hbody
      exact .unchanged
    next hstate =>
      obtain ⟨-, hbody⟩ := else_ok hbody
      obtain ⟨found, hfound, hbody⟩ := try_ok hbody
      obtain ⟨timeline, hnoted, hbody⟩ := try_ok hbody
      cases hbody
      obtain ⟨slot, hslot, rfl⟩ := Option.map_eq_some_iff.mp (okOr_ok hfound)
      have hsize : box.ring.size ≠ 0 := fun h => hstate (stateOf_empty_iff.mpr h)
      exact .dropped env slot timeline (Nat.pos_of_ne_zero hsize) hslot hnoted
  · rw [hrun]
    exact .unchanged

/-! ## §3. The queue an outbox shows. -/

def held (box : Outbox) : List QueuedLetter := (box.ring.contents box.table.slots).map OutboxSlot.letter

def entryEvent : Fifo.Entry QueuedLetter → HistoryEventType
  | .queued _ => .letterQueued
  | .sent _ => .letterSent
  | .dropped _ => .letterDropped

def entryLetter : Fifo.Entry QueuedLetter → QueuedLetter
  | .queued letter | .sent letter | .dropped letter => letter

/-- An event of the timeline records an entry of the log: its kind, and the slot, recipient and kind of
its letter. -/
def Records (entry : Fifo.Entry QueuedLetter) (event : HistoryEvent) : Prop :=
  event.eventType = entryEvent entry ∧ ∃ index, event.details = slotDetails (itemOf index (entryLetter entry))

/-- The timeline is a chain of events, and its events other than refusals are exactly the log. -/
def Tells (t : Timeline) (log : List (Fifo.Entry QueuedLetter)) : Prop :=
  ∃ events, t.Holds events ∧ List.Forall₂ Records log (events.filter fun event => event.eventType ≠ .letterRefused)

structure Shows (box : Outbox) (q : Fifo QueuedLetter) : Prop where
  full : box.ring.Full box.table.slots
  capacity : q.capacity = box.ring.capacity
  held : q.held = box.held
  sent : q.allSent.length = box.sentTotal
  serials : q.allQueued.map QueuedLetter.serial = List.range box.queued
  tells : Tells box.timeline q.log

variable {box : Outbox} {q : Fifo QueuedLetter} {env : OutboxEnv} {timeline : Timeline}
  {outcome : HistoryOutcome}

theorem Tells.snoc (h : Tells box.timeline log) (entry : Fifo.Entry QueuedLetter) (index : Nat)
    (hnoted : box.note env (entryEvent entry) outcome (slotDetails (itemOf index (entryLetter entry)))
      = .ok timeline) : Tells timeline (log ++ [entry]) := by
  obtain ⟨events, hholds, hrecords⟩ := h
  obtain ⟨event, htype, hdetails, hholds'⟩ := hholds.record hnoted
  have hkept : event.eventType ≠ .letterRefused := by
    rw [htype]
    cases entry <;> simp [entryEvent]
  refine ⟨events ++ [event], hholds', ?_⟩
  rw [filter_append, filter_cons_of_pos (by simpa using hkept), filter_nil]
  exact rel_append hrecords (.cons ⟨htype, index, hdetails⟩ .nil)

theorem Tells.refused (h : Tells box.timeline log)
    (hnoted : box.note env .letterRefused outcome details = .ok timeline) : Tells timeline log := by
  obtain ⟨events, hholds, hrecords⟩ := h
  obtain ⟨event, htype, -, hholds'⟩ := hholds.record hnoted
  refine ⟨events ++ [event], hholds', ?_⟩
  rw [filter_append, filter_cons_of_neg (by simp [htype]), filter_nil, append_nil]
  exact hrecords

theorem shows_unused (owner : String) : Shows (unused owner) (Fifo.new defaultCapacity) where
  full i := by
    show (none : Option OutboxSlot).isSome ↔ i ∈ ([] : List Nat)
    simp
  capacity := rfl
  held := rfl
  sent := rfl
  serials := rfl
  tells := ⟨[], Timeline.holds_empty _ _, .nil⟩

theorem Shows.deliver (h : Shows box q) (letter : QueuedLetter) :
    Shows box { q with delivered := q.delivered ++ [letter] } :=
  { h with }

/-- **Claims do not touch the queue.** -/
theorem Shows.relabel (h : Shows box q)
    (hsame : ∀ i, (slots i).map OutboxSlot.letter = (box.table.slots i).map OutboxSlot.letter) :
    Shows { box with table := { box.table with slots } } q := by
  obtain ⟨hfull, hcontents⟩ := h.full.rewrite hsame
  exact ⟨hfull, h.capacity, h.held.trans hcontents.symm, h.sent, h.serials, h.tells⟩

def leaving (sent : Bool) (letter : QueuedLetter) : Fifo.Entry QueuedLetter :=
  if sent then .sent letter else .dropped letter

omit [Crypto] in
theorem entryLetter_leaving (sent : Bool) (letter : QueuedLetter) :
    entryLetter (leaving sent letter) = letter := by
  cases sent <;> rfl

/-- **Freeing the head takes the first letter off.** -/
theorem Shows.release (h : Shows box q) (sent : Bool) (hsize : 0 < box.ring.size)
    (hslot : box.table.slots box.ring.readIndex = some slot)
    (hnoted : box.note env (entryEvent (leaving sent slot.letter)) outcome
      (slotDetails (itemOf index slot.letter)) = .ok timeline) :
    ∃ rest, q.held = slot.letter :: rest ∧ Shows { box.releaseHead box.ring sent with timeline }
        { q with held := rest, log := q.log ++ [leaving sent slot.letter] } := by
  obtain ⟨first, hfirst, hcontents⟩ := h.full.head hsize
  obtain rfl : first = slot := Option.mem_unique hfirst hslot
  obtain ⟨hskip, hfull, hrest⟩ := h.full.release hsize
  have htable : (box.releaseHead box.ring sent).table
      = ⟨some (box.ring.step hsize), Function.update box.table.slots box.ring.readIndex none⟩ := by
    show RingTable.mk (box.table.ring.map _) _ = _
    rw [ring_of_size hsize, Option.map_some, hskip]
  have hring : (box.releaseHead box.ring sent).ring = box.ring.step hsize := by
    show (box.releaseHead box.ring sent).table.ring.getD _ = _
    rw [htable]
    rfl
  refine ⟨((box.ring.step hsize).contents box.table.slots).map OutboxSlot.letter, ?_, ?_⟩
  · rw [h.held, Outbox.held, hcontents, map_cons]
  · have hslots := congrArg RingTable.slots htable
    refine ⟨?_, ?_, ?_, ?_, ?_, ?_⟩
    · show (box.releaseHead box.ring sent).ring.Full (box.releaseHead box.ring sent).table.slots
      rw [hring, hslots]
      exact hfull
    · show q.capacity = (box.releaseHead box.ring sent).ring.capacity
      rw [hring]
      exact h.capacity
    · show _ = ((box.releaseHead box.ring sent).ring.contents (box.releaseHead box.ring sent).table.slots).map _
      rw [hring, hslots, hrest]
    · show List.length (List.filterMap _ (q.log ++ _)) = if sent then box.sentTotal + 1 else box.sentTotal
      rw [filterMap_append, length_append, ← h.sent]
      cases sent <;> rfl
    · show (List.filterMap _ (q.log ++ _)).map _ = List.range box.queued
      rw [← h.serials, filterMap_append]
      cases sent <;> simp [leaving, Fifo.Entry.queued?, Fifo.allQueued]
    · have hentry : box.note env (entryEvent (leaving sent first.letter)) outcome
          (slotDetails (itemOf index (entryLetter (leaving sent first.letter)))) = .ok timeline := by
        rw [entryLetter_leaving]
        exact hnoted
      exact h.tells.snoc (leaving sent first.letter) index hentry

theorem Shows.write (h : Shows box q) (room : box.ring.size < box.ring.capacity)
    (hserial : letter.serial = box.queued)
    (hnoted : box.note env .letterQueued outcome (slotDetails (itemOf box.ring.writeIndex letter)) = .ok timeline) :
    q.held.length < q.capacity ∧ Shows (box.withLetter room letter timeline)
        { q with held := q.held ++ [letter], log := q.log ++ [.queued letter] } := by
  obtain ⟨hfull, hcontents⟩ := h.full.push room ⟨letter, none⟩
  refine ⟨?_, hfull, h.capacity, ?_, ?_, ?_, ?_⟩
  · rw [h.held, Outbox.held, length_map, h.full.length_contents, h.capacity]
    exact room
  · show q.held ++ [letter] = ((box.ring.advance room).contents
      (Function.update box.table.slots box.ring.writeIndex (some ⟨letter, none⟩))).map OutboxSlot.letter
    rw [hcontents, map_append, h.held]
    rfl
  · show List.length (List.filterMap _ (q.log ++ _)) = box.sentTotal
    rw [filterMap_append, length_append, ← h.sent]
    rfl
  · show (List.filterMap _ (q.log ++ _)).map _ = List.range (box.queued + 1)
    rw [filterMap_append, map_append, range_succ, ← h.serials, ← hserial]
    rfl
  · exact h.tells.snoc (.queued letter) box.ring.writeIndex hnoted

omit [Crypto] in
theorem list_reads {table : RingTable OutboxSlot} {indexes : List Nat}
    (h : ∀ i ∈ indexes, (table.slots i).isSome) :
    ∃ items, (indexes.mapM fun index => okOr (itemAt table index) Error.integrityCheckFailed) = .ok items
      ∧ List.Forall₂ (fun item letter => ∃ index, item = itemOf index letter) items
        ((indexes.filterMap table.slots).map OutboxSlot.letter) := by
  induction indexes with
  | nil => exact ⟨[], rfl, .nil⟩
  | cons index rest ih =>
    obtain ⟨items, hitems, hshown⟩ := ih fun i hi => h i (.tail _ hi)
    obtain ⟨slot, hslot⟩ := Option.isSome_iff_exists.mp (h index (.head _))
    refine ⟨itemOf index slot.letter :: items, ?_, ?_⟩
    · rw [mapM_cons, hitems, itemAt, hslot]
      rfl
    · rw [filterMap_cons, hslot, map_cons]
      exact .cons ⟨index, rfl⟩ hshown

theorem Shows.list (h : Shows box q) :
    ∃ items, box.list = .ok items
      ∧ List.Forall₂ (fun item letter => ∃ index, item = itemOf index letter) items q.held := by
  rw [h.held]
  exact list_reads fun i hi => (h.full i).mpr hi

omit [Crypto] in
theorem slots_of_idle (h : r.Full slots) (hidle : r.size = 0) (i : Nat) : slots i = none := by
  cases hslot : slots i with
  | none => rfl
  | some slot =>
    obtain ⟨k, hk, -⟩ := Ring.mem_window.mp ((h i).mp (by rw [hslot]; rfl))
    omega

/-- **Every other transaction is a step of the queue.** -/
theorem Effect.simulates (heffect : Effect box box') (h : Shows box q) :
    ∃ q', Fifo.Step q q' ∧ q'.delivered = q.delivered ∧ Shows box' q' := by
  cases heffect with
  | unchanged => exact ⟨q, .stay q, rfl, h⟩
  | refused env recipient denied refusals timeline noted =>
    exact ⟨q, .stay q, rfl, h.full, h.capacity, h.held, h.sent, h.serials, h.tells.refused noted⟩
  | queued env letter room timeline serial noted =>
    obtain ⟨hroom, hshows⟩ := h.write room serial noted
    exact ⟨_, .queue q letter hroom, rfl, hshows⟩
  | dropped env slot timeline some_held head noted =>
    obtain ⟨rest, hfirst, hshows⟩ := h.release false some_held head noted
    exact ⟨_, .drop q slot.letter rest hfirst, rfl, hshows⟩
  | resized capacity pos idle =>
    have hnone := slots_of_idle h.full idle
    have hidle : q.held = [] := by
      rw [h.held, ← length_eq_zero_iff, Outbox.held, length_map, h.full.length_contents]
      exact idle
    refine ⟨_, .resize q capacity hidle, rfl, fun i => ?_, rfl, ?_, h.sent, h.serials, h.tells⟩
    · show (box.table.slots i).isSome ↔ i ∈ ([] : List Nat)
      rw [hnone i]
      simp
    · exact hidle

omit [Crypto] in
theorem releaseHead_slots (head : Ring) (sent : Bool)
    (h : (box.releaseHead head sent).table.slots i = some slot) :
    i ≠ head.readIndex ∧ box.table.slots i = some slot := by
  obtain ⟨-, hgone⟩ | hold := Ring.update_some h
  · cases hgone
  · exact hold

omit [Crypto] in
/-- A claimed slot after the transaction was a claimed slot before it, with the same letter. -/
theorem Effect.claims [Crypto] (heffect : Effect box box')
    (hslot : box'.table.slots i = some slot) (hclaim : slot.claim ≠ none) : box.table.slots i = some slot := by
  cases heffect with
  | unchanged | refused | resized => exact hslot
  | queued env letter =>
    obtain ⟨-, hnew⟩ | ⟨-, hold⟩ := Ring.update_some hslot
    · cases hnew
      exact absurd rfl hclaim
    · exact hold
  | dropped => exact (releaseHead_slots box.ring false hslot).2

end Effects

end KeyQuorum.Outbox
