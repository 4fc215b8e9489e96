/-
  **THE PIN OF A RESOURCE** (`pin.rs`).

  `verify_pin` is a row of separate statements: it reads the row, compares,
  raises the counter, reads it again and only then locks.  Calls that overlap
  all read the row before any of them has locked it.  Here one resource is
  used by any number of processes, whose statements interleave in any order.
-/
import KeyQuorum.Platform
import KeyQuorum.Foundation.Processes

namespace KeyQuorum.Pin

open List Foundation

/-! ## §1. The statements of a call. -/

def maxAttempts : Nat := 8

/-- A row of `pins`; times are seconds. -/
structure PinRow where
  pinHash : Bytes
  pinSalt : Bytes
  requireEveryUse : Bool
  ttlSeconds : Int
  attemptCount : Nat := 0
  lockedAt : Option Int := none
  unlockedUntil : Option Int := none

def isFourDigitPin (pin : String) : Bool :=
  pin.utf8ByteSize = 4 && pin.toList.all fun c => '0' ≤ c && c ≤ '9'

/-- The row, and how many wrong PINs were compared since the counter was last reset. -/
structure Shared where
  row : Option PinRow
  wrong : Nat := 0

/-- `verify_pin` between two of its statements. -/
inductive Phase where
  | returned (result : Except Error Unit)
  | comparing (pin : String) (row : PinRow)
  | mismatched
  | counted
  | full
  | matched (row : PinRow)

variable (deriveKey : String → Bytes → Except Error Digest)

/-- `set_pin`; the schema checks that the window is positive. -/
def setPin (pin : String) (requireEveryUse : Bool) (ttlSeconds : Int) (salt : Bytes) (db : Shared) :
    Except Error Unit × Shared :=
  if !isFourDigitPin pin then (.error .invalidPin, db)
  else match deriveKey pin salt with
    | .error e => (.error e, db)
    | .ok hash =>
      if ttlSeconds ≤ 0 then (.error .database, db)
      else (.ok (), { row := some { pinHash := hash.bytes, pinSalt := salt, requireEveryUse, ttlSeconds } })

/-- `verify_pin` up to the comparison. -/
def verifyPin (pin : String) (now : Int) (db : Shared) : Phase :=
  match db.row with
  | none => .returned (.error .pinNotSet)
  | some row =>
    if row.lockedAt.isSome then .returned (.error .pinLocked)
    else if !row.requireEveryUse && row.unlockedUntil.any (now < ·) then .returned (.ok ())
    else .comparing pin row

/-- `UPDATE pins SET ... WHERE id = ?1`. -/
def Shared.update (db : Shared) (change : PinRow → PinRow) : Shared := { db with row := db.row.map change }

/-- The next statement of a call. -/
def proceed (now : Int) (db : Shared) : Phase → Shared × Phase
  | .returned result => (db, .returned result)
  | .comparing pin row =>
    match deriveKey pin row.pinSalt with
    | .error e => (db, .returned (.error e))
    | .ok hash =>
      if hash.bytes = row.pinHash then (db, .matched row)
      else ({ db with wrong := db.wrong + 1 }, .mismatched)
  | .mismatched => (db.update fun row => { row with attemptCount := row.attemptCount + 1 }, .counted)
  | .counted =>
    (db, if db.row.any fun row => maxAttempts ≤ row.attemptCount then .full
      else .returned (.error .pinMismatch))
  | .full =>
    (db.update fun row => { row with lockedAt := some now }, .returned (.error .pinMismatch))
  | .matched read =>
    ({ db.update fun row => { row with
        attemptCount := 0
        unlockedUntil := if read.requireEveryUse then row.unlockedUntil
          else some (now + read.ttlSeconds) } with wrong := 0 }, .returned (.ok ()))

inductive Statement where
  | setPin (pin : String) (requireEveryUse : Bool) (ttlSeconds : Int) (salt : Bytes)
  | verifyPin (pin : String) (now : Int)
  | proceed (now : Int)

/-- What a process does next; a PIN can be set at any time. -/
def exec (statement : Statement) (db : Shared) (phase : Phase) : Shared × Phase :=
  match statement with
  | .setPin pin requireEveryUse ttlSeconds salt =>
    ((setPin deriveKey pin requireEveryUse ttlSeconds salt db).2, phase)
  | .verifyPin pin now =>
    match phase with
    | .returned _ => (db, verifyPin pin now db)
    | _ => (db, phase)
  | .proceed now => proceed deriveKey now db phase

/-- Any number of processes, none of which is in a call. -/
def initial (row : Option PinRow) : Processes ι Shared Phase := ⟨{ row }, fun _ => .returned (.ok ())⟩

/-! ## §2. One process. -/

/-- What bounds the wrong PINs, in each phase of the only call. -/
def Bounded (db : Shared) : Phase → Prop
  | .returned _ => db.wrong ≤ 8 ∧ ∀ row, db.row = some row → row.lockedAt = none →
      db.wrong ≤ 7 ∧ db.wrong ≤ row.attemptCount
  | .comparing _ _ => db.wrong ≤ 7 ∧ ∀ row, db.row = some row → db.wrong ≤ row.attemptCount
  | .mismatched => db.wrong ≤ 8 ∧ ∀ row, db.row = some row → db.wrong ≤ row.attemptCount + 1
  | .counted => db.wrong ≤ 8 ∧ ∀ row, db.row = some row → db.wrong ≤ row.attemptCount
  | .full => db.wrong ≤ 8
  | .matched _ => db.wrong ≤ 8

variable {db : Shared} {phase : Phase}

theorem Bounded.reset (h : db.wrong = 0) (phase : Phase) : Bounded db phase := by
  cases phase <;> simp [Bounded, h]

theorem Bounded.wrong_le (h : Bounded db phase) : db.wrong ≤ 8 := by
  cases phase with
  | full | matched => exact h
  | comparing => exact Nat.le_succ_of_le h.1
  | _ => exact h.1

theorem Bounded.verifyPin (h : Bounded db (.returned result)) (pin : String) (now : Int) :
    Bounded db (verifyPin pin now db) := by
  unfold Pin.verifyPin
  split
  · exact h
  next row hrow =>
    split
    · exact h
    next hopen =>
      split
      · exact h
      · obtain ⟨hseven, hcount⟩ := h.2 row hrow (by simpa using hopen)
        refine ⟨hseven, fun found hfound => ?_⟩
        cases hrow.symm.trans hfound
        exact hcount

variable {deriveKey}

theorem Bounded.proceed (h : Bounded db phase) (now : Int) :
    Bounded (proceed deriveKey now db phase).1 (proceed deriveKey now db phase).2 := by
  cases phase with
  | returned result => exact h
  | comparing pin row =>
    unfold Pin.proceed
    dsimp only
    split
    · exact ⟨Nat.le_succ_of_le h.1, fun row hrow _ => ⟨h.1, h.2 row hrow⟩⟩
    · split
      · exact Nat.le_succ_of_le h.1
      · exact ⟨Nat.succ_le_succ h.1, fun row hrow => Nat.succ_le_succ (h.2 row hrow)⟩
  | mismatched =>
    refine ⟨h.1, fun row hrow => ?_⟩
    obtain ⟨old, hold, rfl⟩ := Option.map_eq_some_iff.mp hrow
    exact h.2 old hold
  | counted =>
    unfold Pin.proceed
    dsimp only
    split
    · exact h.1
    next hfew =>
      refine ⟨h.1, fun row hrow _ => ?_⟩
      have hle := h.2 row hrow
      rw [hrow, Option.any_some, decide_eq_true_iff, maxAttempts] at hfew
      omega
  | full =>
    refine ⟨h, fun row hrow hopen => ?_⟩
    obtain ⟨old, -, rfl⟩ := Option.map_eq_some_iff.mp hrow
    cases hopen
  | matched => exact .reset rfl _

/-- **The step.** -/
theorem Bounded.exec (statement : Statement) (db : Shared) (phase : Phase) (h : Bounded db phase) :
    Bounded (exec deriveKey statement db phase).1 (exec deriveKey statement db phase).2 := by
  cases statement with
  | setPin pin requireEveryUse ttlSeconds salt =>
    unfold Pin.exec setPin
    dsimp only
    split
    · exact h
    · split
      · exact h
      · split
        · exact h
        · exact .reset rfl _
  | verifyPin pin now =>
    cases phase with
    | returned => exact h.verifyPin pin now
    | _ => exact h
  | proceed now => exact h.proceed now

/-! ## §3. Two processes. -/

/-- A call with a wrong PIN, up to reading the counter. -/
def attempt : List (Bool × Statement) :=
  (true, .verifyPin "0000" 0) :: replicate 3 (true, .proceed 0)

/-- Seven wrong PINs one after the other; then two processes read the row, and both compare. -/
def overlap : List (Bool × Statement) :=
  (replicate 7 attempt).flatten ++ [(true, .verifyPin "0000" 0), (false, .verifyPin "0000" 0),
    (true, .proceed 0), (false, .proceed 0)]

def someKey (_ : String) (_ : Bytes) : Except Error Digest := .ok (FixedBytes.zero 32)

/-- A row whose hash is that of no PIN. -/
def unmatched : PinRow := ⟨replicate 32 1, replicate 16 0, true, 300, 0, none, none⟩

theorem overlap_wrong :
    (Runs.run (Processes.exec (exec someKey)) (initial (some unmatched)) overlap).shared.wrong = 9 := by
  decide +kernel

/-- **When the lockout holds**: exactly if there are not two processes whose calls can overlap. -/
theorem attempts_bounded_iff (ι : Type) [DecidableEq ι] :
    (∀ deriveKey row (actions : List (ι × Statement)),
        (Runs.run (Processes.exec (exec deriveKey)) (initial row) actions).shared.wrong ≤ maxAttempts)
      ↔ Subsingleton ι := by
  constructor
  · refine fun hbound => ⟨fun a b => ?_⟩
    by_contra hne
    let f : Bool → ι := fun first => if first then a else b
    have hf : f.Injective := by
      rintro (_ | _) (_ | _) <;> simp [f, hne, Ne.symm hne]
    have hsame (actions : List (Bool × Statement)) :
        (Runs.run (Processes.exec (exec someKey)) (initial (some unmatched)) (actions.map (.map f id))).shared
          = (Runs.run (Processes.exec (exec someKey)) (initial (some unmatched)) actions).shared :=
      congrArg Processes.shared (Processes.run_view hf (initial (some unmatched)) actions)
    have hle := hbound someKey (some unmatched) (overlap.map (.map f id))
    rw [hsame, overlap_wrong] at hle
    exact absurd hle (by decide)
  · intro _ deriveKey row actions
    obtain ⟨phase, hphase⟩ := Processes.run_alone (I := Bounded) (w := initial row) .exec
      ⟨.returned (.ok ()), .reset rfl _, fun _ => rfl⟩ actions
    exact hphase.wrong_le

/-- Two overlapping sessions take more wrong PINs than the limit. -/
theorem nine_wrong_pins : ∃ actions : List (Bool × Statement), maxAttempts
    < (Runs.run (Processes.exec (exec someKey)) (initial (some unmatched)) actions).shared.wrong :=
  ⟨overlap, by rw [overlap_wrong]; decide⟩

end KeyQuorum.Pin
