/-
  **THE IDENTITIES AND TRANSACTIONS OF A DEVICE** (`transfer.rs`, its tables
  and the statements on them).

  An identity is an id, a label and two public keys; whether its secrets are
  here is its possession, with a generation that counts the moves.  A
  transaction is one row at each end of a transfer.  The audit trail and
  the provenance of an identity are written and never read by a transfer,
  so they are left out.
-/
import KeyQuorum.Transfer.Package
import KeyQuorum.Transfer.Detail
import KeyQuorum.Foundation.Table
import KeyQuorum.KeyTree.Apply
import KeyQuorum.Authority

namespace KeyQuorum.Transfer

open Foundation

/-! ## §1. Rows. -/

/-- A row of `key_identities`, with all its columns. -/
structure IdentityRow where
  id : Id16
  label : String
  parentLabel : Option String
  encPublic : Digest
  signPublic : Digest
  encFingerprint : String
  signFingerprint : String
  deriving DecidableEq, Repr

/-- A row of `key_possession`, with all its columns. -/
structure PossessionRow where
  identityId : Id16
  state : PossessionState
  generation : Generation
  deriving DecidableEq, Repr

/-- `transfer_transactions.role`. -/
inductive Role where
  | source
  | destination
  deriving DecidableEq, Repr

/-- `transfer_transactions.state`. -/
inductive TxState where
  | prepared
  | transferred
  | writing
  | destinationCommitted
  | acknowledged
  | sourceFinalized
  | completed
  | aborted
  | needsAdmin
  deriving DecidableEq, Repr

def TxState.settled : TxState → Bool
  | .destinationCommitted | .acknowledged | .completed | .sourceFinalized => true
  | _ => false

/-- A row of `transfer_transactions`. -/
structure TxRow where
  id : Id16
  operation : TransferOp
  role : Role
  state : TxState
  peerDeviceId : Id16
  rootLabel : String
  descendantMode : DescendantMode
  packageHash : Digest
  detail : String
  deriving DecidableEq, Repr

def TxRow.included (row : TxRow) : List String := detailList row.detail "included"

/-- The labels whose slots a transaction has installed, or is about to. -/
def TxRow.installed (row : TxRow) : List String := detailList row.detail "installed"

structure Ledger where
  hardwareKeys : List HardwareKey := []
  identities : Table IdentityRow Id16 IdentityRow.id := Table.empty
  possessions : Table PossessionRow Id16 PossessionRow.identityId := Table.empty
  transactions : Table TxRow Id16 TxRow.id := Table.empty
  deriving DecidableEq

namespace Ledger

/-! ## §2. Queries. -/

section

variable (ledger : Ledger)

def identityByLabel (label : String) : Option IdentityRow :=
  ledger.identities.rows.find? fun row => row.label = label

def identityById (id : Id16) : Option IdentityRow := ledger.identities.find? id

/-- `possession`: of the identity with a label. -/
def possession (label : String) : Option PossessionState := do
  let row ← ledger.identityByLabel label
  let held ← ledger.possessions.find? row.id
  some held.state

def generation? (id : Id16) : Option Generation :=
  (ledger.possessions.find? id).map PossessionRow.generation

def generationOf (id : Id16) : Except Error Generation :=
  okOr (ledger.generation? id) .transferDenied

def activeLabels : List String :=
  (ledger.identities.rows.filter fun row =>
    ((ledger.possessions.find? row.id).map PossessionRow.state) = some .active).map IdentityRow.label

def tx (id : Id16) : Option TxRow := ledger.transactions.find? id

def txState (id : Id16) : Option TxState := (ledger.tx id).map TxRow.state

def txRole (id : Id16) : Option Role := (ledger.tx id).map TxRow.role

/-- A column of a transaction that has to be there: `tx_detail`, `tx_hash`, `tx_operation`. -/
def requireTx (id : Id16) : Except Error TxRow :=
  okOr (ledger.tx id) .transferIncomplete

def destinationCommitted (id : Id16) : Bool :=
  (ledger.txState id).any TxState.settled

/-! ## §3. Changes. -/

def withIdentity (row : IdentityRow) (held : PossessionRow) : Ledger :=
  { ledger with identities := ledger.identities.add row
                possessions := ledger.possessions.add held }

def withPossession (id : Id16) (state : PossessionState) (generation : Generation) : Ledger :=
  { ledger with
    possessions := ledger.possessions.change id
      (fun held => { held with state, generation }) fun _ => rfl }

def withGenerationAtLeast (id : Id16) (generation : Generation) : Ledger :=
  { ledger with
    possessions := ledger.possessions.change id (fun held => { held with generation :=
        if held.generation.val < generation.val then generation else held.generation }) fun _ => rfl }

def withTx (row : TxRow) : Ledger :=
  { ledger with transactions := ledger.transactions.add row }

def withState (id : Id16) (state : TxState) : Ledger :=
  { ledger with
    transactions := ledger.transactions.change id (fun row => { row with state }) fun _ => rfl }

def withDetail (id : Id16) (detail : String) : Ledger :=
  { ledger with
    transactions := ledger.transactions.change id (fun row => { row with detail }) fun _ => rfl }

/-- The ledger with a transaction carried over to the bookkeeping of its destination. -/
def withRestaged (id : Id16) (row : TxRow) : Ledger :=
  { ledger with
    transactions := ledger.transactions.change id
      (fun old => { row with id := old.id, operation := old.operation }) fun _ => rfl }

end

/-! ## §4. Statements. -/

/-- `insert_identity`: the id and the label are unique. -/
def insertIdentity (row : IdentityRow) (held : PossessionRow) : Op Ledger Error Unit := do
  let ledger ← Op.read
  Op.require ((ledger.identityById row.id).isNone && (ledger.identityByLabel row.label).isNone
    && (ledger.possessions.find? held.identityId).isNone) .database
  Op.modify fun ledger => ledger.withIdentity row held

def setPossession (id : Id16) (state : PossessionState) (generation : Generation) :
    Op Ledger Error Unit := do
  let ledger ← Op.read
  Op.require (ledger.possessions.find? id).isSome .transferDenied
  Op.modify fun ledger => ledger.withPossession id state generation

def setGenerationAtLeast (id : Id16) (generation : Generation) : Op Ledger Error Unit :=
  Op.modify fun ledger => ledger.withGenerationAtLeast id generation

/-- `insert_tx`: the id is the primary key. -/
def insertTx (row : TxRow) : Op Ledger Error Unit := do
  let ledger ← Op.read
  Op.require (ledger.tx row.id).isNone .database
  Op.modify fun ledger => ledger.withTx row

/-- `update_tx`: every column but the id and the operation. -/
def updateTx (row : TxRow) : Op Ledger Error Unit :=
  Op.modify fun ledger => ledger.withRestaged row.id row

def setState (id : Id16) (state : TxState) : Op Ledger Error Unit := do
  let ledger ← Op.read
  Op.require (ledger.tx id).isSome .transferIncomplete
  Op.modify fun ledger => ledger.withState id state

def setDetail (id : Id16) (detail : String) : Op Ledger Error Unit :=
  Op.modify fun ledger => ledger.withDetail id detail

def keyStore (ledger : Ledger) : Store := { hardwareKeys := ledger.hardwareKeys }

def ensureHardware [Crypto] (label : String) (keyType : KeyType) (publicKey : Digest) :
    Op Ledger Error Unit := do
  let ledger ← Op.read
  match ledger.keyStore.getKeyByPublicKey publicKey.bytes with
  | .ok _ => pure ()
  | .error _ =>
    Op.zoom keyStore (fun ledger store => { ledger with hardwareKeys := store.hardwareKeys })
      (Op.void (Store.registerKey label keyType publicKey.bytes))

/-! ## §5. What the changes do to the queries. -/

section Changes

variable {ledger : Ledger} {id : Id16} {row : TxRow} {state : TxState}

theorem txState_of_tx (h : ledger.tx id = some row) : ledger.txState id = some row.state :=
  congrArg (Option.map TxRow.state) h

theorem tx_withState : (ledger.withState id state).tx other
    = if other = id then (ledger.tx other).map fun row => { row with state }
      else ledger.tx other :=
  Table.find?_change (by intro _; rfl)

theorem tx_withDetail : (ledger.withDetail id detail).tx other
    = if other = id then (ledger.tx other).map fun row => { row with detail }
      else ledger.tx other :=
  Table.find?_change (by intro _; rfl)

theorem tx_withRestaged : (ledger.withRestaged id row).tx other = if other = id then
        (ledger.tx other).map fun old => { row with id := old.id, operation := old.operation }
      else ledger.tx other :=
  Table.find?_change (by intro _; rfl)

theorem tx_withTx (h : ledger.tx row.id = none) :
    (ledger.withTx row).tx other = if other = row.id then some row else ledger.tx other :=
  Table.find?_add h

variable {generation : Generation} {label : String}

theorem generation?_withPossession :
    (ledger.withPossession id held generation).generation? other
      = if other = id then (ledger.generation? other).map fun _ => generation
        else ledger.generation? other := by
  unfold generation? withPossession
  rw [Table.find?_change]
  split
  · rw [Option.map_map, Option.map_map]
    rfl
  · rfl

theorem generation?_withGenerationAtLeast :
    (ledger.withGenerationAtLeast id generation).generation? other
      = if other = id then (ledger.generation? other).map fun old =>
          if old.val < generation.val then generation else old
        else ledger.generation? other := by
  unfold generation? withGenerationAtLeast
  rw [Table.find?_change]
  split
  · rw [Option.map_map, Option.map_map]
    rfl
  · rfl

theorem requireTx_ok (h : ledger.requireTx id = .ok row) : ledger.tx id = some row := okOr_ok h

theorem requireTx_of_some (h : ledger.tx id = some row) : ledger.requireTx id = .ok row := by
  unfold requireTx
  rw [h]
  rfl

theorem generationOf_ok (h : ledger.generationOf id = .ok generation) :
    ledger.generation? id = some generation := okOr_ok h

theorem identityByLabel_some (h : ledger.identityByLabel label = some found) :
    found ∈ ledger.identities.rows ∧ found.label = label :=
  ⟨List.mem_of_find?_eq_some h, by simpa using List.find?_some h⟩

theorem setState_ok (h : setState id state ledger = (.ok u, ledger')) :
    (∃ row, ledger.tx id = some row) ∧ ledger' = ledger.withState id state := by
  obtain ⟨hsome, h⟩ := Op.require_bind_ok (Op.read_bind_ok h)
  exact ⟨Option.isSome_iff_exists.mp hsome, Op.modify_ok h⟩

theorem setState_run (h : ledger.tx id = some row) :
    setState id state ledger = (.ok (), ledger.withState id state) := by
  unfold setState
  rw [Op.read_bind, Op.require_bind (by rw [h]; rfl)]
  rfl

theorem setPossession_ok (h : setPossession id held generation ledger = (.ok u, ledger')) :
    (∃ row, ledger.possessions.find? id = some row)
      ∧ ledger' = ledger.withPossession id held generation := by
  obtain ⟨hsome, h⟩ := Op.require_bind_ok (Op.read_bind_ok h)
  exact ⟨Option.isSome_iff_exists.mp hsome, Op.modify_ok h⟩

theorem setPossession_run (h : ledger.possessions.find? id = some old) :
    setPossession id held generation ledger = (.ok (), ledger.withPossession id held generation) := by
  unfold setPossession
  rw [Op.read_bind, Op.require_bind (by rw [h]; rfl)]
  rfl

theorem insertTx_ok (h : insertTx row ledger = (.ok u, ledger')) :
    ledger.tx row.id = none ∧ ledger' = ledger.withTx row := by
  obtain ⟨hnone, h⟩ := Op.require_bind_ok (Op.read_bind_ok h)
  exact ⟨by simpa using hnone, Op.modify_ok h⟩

theorem insertIdentity_ok (h : insertIdentity identity held ledger = (.ok u, ledger')) :
    ledger.identityById identity.id = none ∧ ledger.identityByLabel identity.label = none
      ∧ ledger.possessions.find? held.identityId = none
      ∧ ledger' = ledger.withIdentity identity held := by
  obtain ⟨hnew, h⟩ := Op.require_bind_ok (Op.read_bind_ok h)
  simp only [Bool.and_eq_true, Option.isNone_iff_eq_none] at hnew
  exact ⟨hnew.1.1, hnew.1.2, hnew.2, Op.modify_ok h⟩

theorem ensureHardware_ok [Crypto]
    (h : ensureHardware label keyType publicKey ledger = (.ok u, ledger')) :
    ∃ keys, ledger' = { ledger with hardwareKeys := keys } := by
  have h := Op.read_bind_ok h
  cases hget : ledger.keyStore.getKeyByPublicKey publicKey.bytes with
  | ok key =>
    rw [hget] at h
    exact ⟨ledger.hardwareKeys, (Op.pure_ok h).2.symm⟩
  | error e =>
    rw [hget] at h
    obtain ⟨store, -, hstore⟩ := Op.zoom_ok h
    exact ⟨store.hardwareKeys, hstore⟩

end Changes

end Ledger

end KeyQuorum.Transfer
