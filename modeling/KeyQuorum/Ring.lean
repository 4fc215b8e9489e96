/-
  **THE RING TABLES** (`ring.rs`), shared by each person's outbox and each
  store's inbox.

  A ring row with its pointers, and slot rows by index.  The checks of the
  schema are part of the pointers (`Foundation.Ring`), so a statement that
  would break one fails.
-/
import KeyQuorum.Platform
import KeyQuorum.Foundation.Ring

namespace KeyQuorum

open Foundation

/-- A row of `outbox_rings` or `inbox_rings` with its slot rows. -/
structure RingTable (α : Type) where
  ring : Option Ring
  slots : Nat → Option α

namespace RingTable

variable {α : Type}

/-- `ensure`: the ring, created with a capacity the first time. -/
def ensure (t : RingTable α) (capacity : Nat) : Except Error Ring :=
  match t.ring with
  | some ring => .ok ring
  | none => if h : 0 < capacity then .ok (Ring.new capacity h) else .error .integrityCheckFailed

def insertSlot (t : RingTable α) (index : Nat) (row : α) : Except Error (RingTable α) :=
  if (t.slots index).isSome then .error .database
  else .ok { t with slots := Function.update t.slots index (some row) }

theorem insertSlot_ok {t : RingTable α} (h : t.insertSlot index row = .ok t') :
    t' = ⟨t.ring, Function.update t.slots index (some row)⟩ := by
  obtain ⟨-, h⟩ := else_ok h
  exact (Except.ok.inj h).symm

def advanceWrite (t : RingTable α) (ring : Ring) : Except Error (RingTable α) :=
  if h : ring.size < ring.capacity then .ok { t with ring := some (ring.advance h) }
  else .error .database

/-- `release`: delete the slot, then move the read pointer past every released slot at the head. -/
def release (t : RingTable α) (index : Nat) : RingTable α :=
  let slots := Function.update t.slots index none
  { ring := t.ring.map fun ring => ring.skip fun i => (slots i).isSome, slots }

/-- `resize`: only an empty ring is resized; `false` when it is not. -/
def resize (t : RingTable α) (capacity : Nat) : Except Error (Bool × RingTable α) := do
  let ring ← t.ensure capacity
  if ring.size ≠ 0 then .ok (false, { t with ring := some ring })
  else if h : 0 < capacity then .ok (true, { t with ring := some (Ring.new capacity h) })
  else .error .database

end RingTable

end KeyQuorum
