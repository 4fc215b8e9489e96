/-
  **AN ABORTED TRANSFER AND THE PACKAGE STILL UNDER WAY.**

  Aborting writes its verdict into the destination's row.  From then on
  every delivery of the package finds the row closed.  Where the package
  has not yet arrived there is no row and nothing is written, so the
  destination treats the package as if there had been no abort.
-/
import KeyQuorum.Transfer.World

namespace KeyQuorum.Transfer

open Foundation

/-! ## §1. Closed transactions. -/

/-- A destination that has stopped taking things in for a transaction. -/
def Ledger.Closed (ledger : Ledger) (tx : Id16) : Prop :=
  ∃ row, ledger.tx tx = some row ∧ row.role = .destination ∧ row.state.isOpen = false

theorem Later.closed (h : Later P a b) (hclosed : a.Closed tx) : b.Closed tx := by
  obtain ⟨row, hrow, hrole, hstate⟩ := hclosed
  obtain ⟨row', hrow', hfollows⟩ := h.follows hrow
  refine ⟨row', hrow', ?_, hfollows.closed hrole hstate⟩
  rcases hfollows.same_role with hsame | ⟨hsource, -⟩
  · exact hsame.trans hrole
  · exact absurd (hsource.symm.trans hrole) (by simp)

/-- Changes of transactions only, and the same slots. -/
abbrev Inert : End → End → Prop := Shifts TxLater Eq

section Deliveries

variable [Crypto] [KeyPairs] {source : DeviceKey} {package : Bytes}

def Spent (source : DeviceKey) (package : Bytes) (here : End) : Prop :=
  ∀ bundle, openBundle package source here.container.deviceId = .ok bundle → here.ledger.Closed bundle.id

theorem Spent.inert (h : Spent source package here) (hinert : Inert here there) :
    Spent source package there := by
  intro bundle hbundle
  rw [← hinert.container] at hbundle
  exact (hinert.ledger.later (P := fun _ => True)).closed (h bundle hbundle)

theorem stageDestination_spent (h : Spent source package here) :
    Run.MovesFrom Inert (stageDestination source package allow) here := by
  refine .look_bind (.check_bind fun bundle hbundle => ?_)
  obtain ⟨row, hrow, hrole, -⟩ := h bundle hbundle
  refine .require_bind fun hnot => ?_
  have hdest : here.ledger.txRole bundle.id = some .destination := by
    unfold Ledger.txRole
    rw [hrow, Option.map_some, hrole]
  exact absurd hdest (by simpa using hnot)

theorem writeDestinationSlots_spent (h : Spent source package here) :
    Run.MovesFrom Inert (writeDestinationSlots source package passphrases limit) here := by
  refine .look_bind (.check_bind fun bundle hbundle => ?_)
  obtain ⟨row, hrow, -, hclosed⟩ := h bundle hbundle
  refine Run.Ends.pass_bind (Ledger.requireTx_of_some hrow) (Run.MovesFrom.require_bind fun hopen => ?_)
  simp only [Bool.or_eq_true, decide_eq_true_eq] at hopen
  rcases hopen with hopen | hopen <;> rw [hopen] at hclosed <;> exact absurd hclosed (by decide)

theorem commitDestinationRows_spent (h : Spent source package here) :
    Run.MovesFrom Inert (commitDestinationRows source package allow) here := by
  refine .look_bind (.check_bind fun bundle hbundle => ?_)
  obtain ⟨row, hrow, -, hclosed⟩ := h bundle hbundle
  refine Run.Ends.pass_bind (Ledger.requireTx_of_some hrow) (Run.MovesFrom.require_bind fun hstate => ?_)
  split
  · exact .pure ()
  next hnot =>
    have hwriting : row.state = .writing := by simpa [hnot] using hstate
    rw [hwriting] at hclosed
    exact absurd hclosed (by decide)

theorem spent_delivery : Delivery Inert (Spent source package) source package :=
  ⟨fun hinert h => h.inert hinert, fun _ => stageDestination_spent,
    fun _ _ => writeDestinationSlots_spent, fun _ => commitDestinationRows_spent,
    fun _ => acknowledge_shifts⟩

end Deliveries

/-! ## §2. What aborting writes. -/

section Aborting

variable {tx : Id16}

theorem undoInstalled_closes (hrow : here.ledger.tx tx = some row) :
    Run.Ends (undoInstalled tx) here
      (fun _ there => there.ledger = here.ledger.withState tx .aborted) fun _ => True := by
  refine .look_bind ?_
  rw [hrow]
  refine .bind (M := fun _ there => here.ledger = there.ledger) ?_ fun _ there hledger => ?_
  · refine .mono (@removeSlots_ends here row.installed row.installed fun _ h => h)
      (fun _ _ h => h.1.ledger) fun _ _ => trivial
  · refine onLedger_ends trivial fun _ ledger hrun => ?_
    obtain ⟨-, rfl⟩ := Ledger.setState_ok hrun
    rw [hledger]

theorem undoInstalled_none (hrow : here.ledger.tx tx = none) :
    Run.Ends (undoInstalled tx) here (fun _ there => there = here) fun there => there = here := by
  refine .look_bind ?_
  rw [hrow]
  exact .pure rfl

theorem abortTransfer_dest (hstart : Q here.dest)
    (h : Run.Ends (undoInstalled tx) here.dest (fun _ => A) Q) (hA : ∀ dest, A dest → Q dest) :
    Run.Ends (abortTransfer tx) here (fun _ there => A there.dest) fun there => Q there.dest := by
  refine .look_bind (.require_bind hstart fun _ => ?_)
  refine .bind (M := fun _ there => A there.dest) (.on h) fun _ there hthere => ?_
  refine .look_bind (.when (fun _ => .on ?_) fun _ => hthere)
  exact onLedger_ends (hA there.dest hthere) fun _ _ _ => hthere

theorem recoverPair_aborted (h : Run.Ends (abortTransfer tx) here (fun _ => A) fun _ => True) :
    Run.Ends (recoverPair tx) here (fun result there => result = .aborted → A there)
      fun _ => True := by
  have hany : ∀ {α : Type} {m : Run Pair Error α} {here : Pair},
      Run.Ends m here (fun _ _ => True) fun _ => True := by
    intro α m here left
    split <;> trivial
  refine .look_bind (.check_bind trivial fun row _ => ?_)
  split
  · exact .bind hany fun _ _ _ => .bind hany fun _ _ _ =>
      .pure fun hresult => absurd hresult (by simp)
  split
  · exact .pure fun hresult => absurd hresult (by simp)
  split
  · exact .bind hany fun _ _ _ => .pure fun hresult => absurd hresult (by simp)
  split
  · exact .bind hany fun _ _ _ => .pure fun hresult => absurd hresult (by simp)
  split
  · exact .bind hany fun _ _ _ => .pure fun hresult => absurd hresult (by simp)
  · exact .bind h fun _ there hthere => .pure fun _ => hthere

end Aborting

/-! ## §3. Runs. -/

section Runs

variable [Crypto] [KeyPairs] {ι : Type} [DecidableEq ι]

def Action.Aborts (left : Option Nat) (world : World ι) (dest : ι) (tx : Id16) : Action ι → Prop
  | .abort source dest' tx' =>
    source ≠ dest ∧ dest' = dest ∧ tx' = tx
      ∧ (abortTransfer tx ⟨⟨world source, world dest⟩, left⟩).1 = .ok ()
  | .recover source dest' tx' =>
    source ≠ dest ∧ dest' = dest ∧ tx' = tx
      ∧ (recoverPair tx ⟨⟨world source, world dest⟩, left⟩).1 = .ok .aborted
  | _ => False

theorem Action.Aborts.dest {left : Option Nat} {world : World ι} {dest : ι} {tx : Id16}
    {action : Action ι} (haborts : action.Aborts left world dest tx) {A : End → Prop}
    (h : Run.Ends (undoInstalled tx) (world dest) (fun _ => A) fun _ => True) :
    A (action.exec left world dest) := by
  cases action with
  | abort source dest' tx' =>
    obtain ⟨hne, rfl, rfl, hok⟩ := haborts
    have hends : Run.Ends (abortTransfer tx') ⟨world source, world dest'⟩
        (fun _ there => A there.dest) fun _ => True :=
      abortTransfer_dest trivial h fun _ _ => trivial
    show A (world.onBoth source dest' (abortTransfer tx') left dest')
    rw [World.onBoth_dest hne]
    exact hends.of_ok (Prod.ext hok rfl)
  | recover source dest' tx' =>
    obtain ⟨hne, rfl, rfl, hok⟩ := haborts
    have hends : Run.Ends (recoverPair tx') ⟨world source, world dest'⟩
        (fun result there => result = .aborted → A there.dest) fun _ => True :=
      recoverPair_aborted (abortTransfer_dest trivial h fun _ _ => trivial)
    show A (world.onBoth source dest' (recoverPair tx') left dest')
    rw [World.onBoth_dest hne]
    exact hends.of_ok (Prod.ext hok rfl) rfl
  | _ => exact absurd haborts (by simp [Action.Aborts])

/-- **An aborted transfer whose package had arrived has no later effect**: whatever is called after
the abort, a delivery of the package installs no slot and makes no identity active.  Where the package
had not arrived the abort leaves the destination as it was. -/
theorem World.aborted_stays_aborted (world : World ι) (ending : Action ι) (left : Option Nat) (dest : ι)
    (tx : Id16) (hended : ending.Aborts left world dest tx) :
    (∀ row, (world dest).ledger.tx tx = some row → row.role = .destination →
      ∀ (calls : List (Action ι × Option Nat)) (action : Action ι) (left' : Option Nat)
        (source : DeviceKey) (package : Bytes), action.Delivers dest source package →
        (∀ bundle, openBundle package source (world dest).container.deviceId = .ok bundle →
          bundle.id = tx) →
        (action.exec left' ((ending.exec left world).run calls) dest).container
            = ((ending.exec left world).run calls dest).container
          ∧ SameHeld ((ending.exec left world).run calls dest).ledger
              (action.exec left' ((ending.exec left world).run calls) dest).ledger)
      ∧ ((world dest).ledger.tx tx = none → ending.exec left world dest = world dest) := by
  refine ⟨fun row hrow hrole calls action left' source package hdelivers hid => ?_, fun hnone => ?_⟩
  · have hledger := hended.dest (undoInstalled_closes hrow)
    have hclosed : (ending.exec left world dest).ledger.Closed tx := by
      refine ⟨{ row with state := .aborted }, ?_, hrole, rfl⟩
      rw [hledger, Ledger.tx_withState, if_pos rfl, hrow]
      rfl
    have honward := World.run_onward (ending.exec left world) calls dest
    have hstart := Action.exec_onward (ending.admits_true world) left dest
    have hspent : Spent source package ((ending.exec left world).run calls dest) := by
      intro bundle hbundle
      rw [honward.deviceId_eq, hstart.deviceId_eq] at hbundle
      rw [hid bundle hbundle]
      exact honward.ledger.closed hclosed
    have hinert := spent_delivery.exec hdelivers hspent left'
    exact ⟨hinert.container.symm, hinert.ledger.sameHeld⟩
  · refine hended.dest (A := fun there => there = world dest) ?_
    exact (undoInstalled_none hnone).mono (fun _ _ h => h) fun _ _ => trivial

end Runs

namespace Sample

attribute [local instance] crypto keyPairs

/-- Device 1 has prepared a copy of `M` for device 2. -/
def prepared : World Bool := (Action.prepare false (request 1 2 .copy)).exec none enrolled

def copyOfM : Bytes := packageAt (enrolled false) (request 1 2 .copy)

def staged : World Bool := (Action.stage true (device 1 []).key copyOfM false).exec none prepared

theorem aborted_copy_stays_aborted :
    ((Action.accept true (device 1 []).key copyOfM passphrases false).exec none
        (((Action.abort false true (.ofNat 16 1)).exec none staged).run []) true).container
      = (((Action.abort false true (.ofNat 16 1)).exec none staged).run [] true).container := by
  obtain ⟨hok, hrow, hid⟩ :
      (abortTransfer (.ofNat 16 1) ⟨⟨staged false, staged true⟩, none⟩).1 = .ok ()
        ∧ (((staged true).ledger.tx (.ofNat 16 1)).any fun row => row.role = .destination)
        ∧ (openBundle copyOfM (device 1 []).key (staged true).container.deviceId).toOption.all
            fun bundle => bundle.id = .ofNat 16 1 := by
    decide +kernel
  have h := World.aborted_stays_aborted staged (.abort false true (.ofNat 16 1)) none true
    (.ofNat 16 1) ⟨by decide, rfl, rfl, hok⟩
  obtain ⟨row, hrow, hrole⟩ := (Option.any_eq_true _ _).mp hrow
  refine (h.1 row hrow (by simpa using hrole) []
    (.accept true (device 1 []).key copyOfM passphrases false) none (device 1 []).key copyOfM
    ⟨rfl, rfl, rfl⟩ fun bundle hbundle => ?_).1
  rw [hbundle] at hid
  simpa [Except.toOption] using hid

/-- **Aborted before it arrived, the copy is taken in.** -/
theorem aborted_copy_arrives :
    (Action.abort false true (.ofNat 16 1)).Aborts none prepared true (.ofNat 16 1)
      ∧ ((Action.abort false true (.ofNat 16 1)).exec none prepared true).container.slots = []
      ∧ ((Action.accept true (device 1 []).key copyOfM passphrases false).exec none
          ((Action.abort false true (.ofNat 16 1)).exec none prepared) true).container.slots
        = [slotM]
      ∧ ((Action.accept true (device 1 []).key copyOfM passphrases false).exec none
          ((Action.abort false true (.ofNat 16 1)).exec none prepared) true).ledger.possession "M"
        = some .active := by
  refine ⟨⟨by decide, rfl, rfl, by decide +kernel⟩, ?_⟩
  decide +kernel

end Sample

end KeyQuorum.Transfer
