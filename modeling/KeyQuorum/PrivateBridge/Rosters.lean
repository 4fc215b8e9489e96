/-
  **WHAT ONE STORE HOLDS OF ITS PRIVATE BRIDGES** (the tables
  `private_bridges`, `private_bridge_members` and
  `private_bridge_sealed_keys`, with the statements of `private_bridge.rs`
  that write them).

  The rows of the two child tables are kept with the bridge they belong to.
  Each transaction is about one bridge, so it is a function on that row which
  either gives the new row or fails and leaves the table alone.
  Event rows (`bridge_events`) are written and never read back here; they
  are left out.
-/
import KeyQuorum.PrivateBridge.Package
import KeyQuorum.Foundation.Table
import KeyQuorum.Authority
import Mathlib.Data.List.Sort

namespace KeyQuorum.PrivateBridge

open List Foundation Letter

/-! ## §1. Rows. -/

/-- `role` and `signing_public_key` of a party: a member has a signing key, a supervisor none. -/
inductive Standing where
  | member (signing : Digest)
  | supervisor
  deriving DecidableEq

/-- A row of `private_bridge_members`. -/
structure Party where
  label : String
  encryption : Digest
  standing : Standing
  isLocal : Bool
  deriving DecidableEq

/-- A row of `private_bridge_sealed_keys`. -/
structure SealedKey where
  label : String
  wrapSalt : Id16
  wrapped : Bytes
  deriving DecidableEq

/-- A row of `private_bridges` with the rows that refer to it. -/
structure Bridge where
  uid : String
  keyId : Option Nat
  label : Option String
  generation : UInt32
  publicKey : Digest
  salt : Id16
  destroyed : Bool
  parties : Table Party String Party.label
  sealedKeys : Table SealedKey String SealedKey.label
  deriving DecidableEq

/-- The private bridges a database knows, by uid. -/
abbrev Rosters := Table Bridge String Bridge.uid

/-- `PartyRole` of a party. -/
def Party.role (party : Party) : PartyRole :=
  match party.standing with
  | .member _ => .member
  | .supervisor => .supervisor

/-- `ORDER BY m.role, m.node_label`. -/
def Party.before (a b : Party) : Bool :=
  match a.role, b.role with
  | .member, .supervisor => true
  | .supervisor, .member => false
  | _, _ => a.label ≤ b.label

/-- `BridgeSummary::parties`. -/
def Bridge.summary (bridge : Bridge) : List Party :=
  bridge.parties.rows.insertionSort fun a b => a.before b = true

/-- `get`; `last_bridge_id` fails alike. -/
def Rosters.get (db : Rosters) (uid : String) : Except Error Bridge :=
  okOr (db.find? uid) .bridgeNotFound

/-! ## §2. Statements. -/

/-- Insert party rows one after the other; a label can be there only once. -/
def insertParties : List Party → Table Party String Party.label →
    Except Error (Table Party String Party.label)
  | [], table => .ok table
  | party :: rest, table =>
    if (table.find? party.label).isSome then .error .database
    else insertParties rest (table.add party)

theorem insertParties_rows (h : insertParties parties table = .ok table') :
    table'.rows = table.rows ++ parties := by
  induction parties generalizing table with
  | nil =>
    cases h
    exact (append_nil _).symm
  | cons party rest ih =>
    obtain ⟨hfree, h⟩ := else_ok h
    rw [ih h, Table.rows_add (by simpa using hfree), append_assoc]
    rfl

/-- The rows `insert_member_parties` inserts. -/
def memberParties (members : Members) (localLabel : Option String) : List Party :=
  members.entries.map fun entry =>
    ⟨entry.1, entry.2.encryption, .member entry.2.signing, localLabel = some entry.1⟩

/-- The rows `insert_supervisor_parties` inserts. -/
def supervisorParties (supervisors : Supervisors) (localLabel : Option String) : List Party :=
  supervisors.entries.map fun entry => ⟨entry.1, entry.2, .supervisor, localLabel = some entry.1⟩

/-- `CHECK (generation > 0)`. -/
def checkGeneration (generation : UInt32) : Except Error Unit :=
  if 0 < generation then .ok () else .error .database

/-- Replace the party rows; the sealed keys of the old ones go with them. -/
def Bridge.replaceRoster (bridge : Bridge) (members : Members) (supervisors : Supervisors)
    (localLabel : Option String) : Except Error Bridge := do
  let parties ← insertParties
    (memberParties members localLabel ++ supervisorParties supervisors localLabel) Table.empty
  .ok { bridge with parties, sealedKeys := Table.empty }

/-- Insert a row of `private_bridge_sealed_keys` for a party of the bridge. -/
def Bridge.insertSealedKey (bridge : Bridge) (key : SealedKey) : Except Error Bridge :=
  if (bridge.parties.find? key.label).isSome && (bridge.sealedKeys.find? key.label).isNone then
    .ok { bridge with sealedKeys := bridge.sealedKeys.add key }
  else .error .database

variable {bridge bridge' : Bridge} {uid : String} {key : SealedKey}

theorem Bridge.insertSealedKey_ok (h : bridge.insertSealedKey key = .ok bridge') :
    bridge' = { bridge with sealedKeys := bridge.sealedKeys.add key } := by
  obtain ⟨-, h⟩ := then_ok h
  exact (Except.ok.inj h).symm

def alter (uid : String) (missing : Error) (change : Bridge → Except Error Bridge) :
    Op Rosters Error Unit := fun db =>
  match db.find? uid with
  | none => (.error missing, db)
  | some bridge =>
    match change bridge with
    | .error e => (.error e, db)
    | .ok bridge' => (.ok (), db.put bridge')

theorem alter_ok (h : alter uid missing change db = (.ok u, db')) :
    ∃ bridge bridge', db.find? uid = some bridge ∧ change bridge = .ok bridge' ∧ db' = db.put bridge' := by
  unfold alter at h
  split at h
  next => cases h
  next bridge hbridge =>
    split at h
    next => cases h
    next bridge' hchange =>
      cases h
      exact ⟨bridge, bridge', hbridge, hchange, rfl⟩

theorem alter_of_ok (hbridge : db.find? uid = some bridge) (hchange : change bridge = .ok bridge') :
    alter uid missing change db = (.ok (), db.put bridge') := by
  unfold alter
  rw [hbridge]
  dsimp only
  rw [hchange]

theorem alter_atomic :
    Op.Atomic (alter uid missing change) := by
  intro db e h
  unfold alter at h ⊢
  split at h
  next => rfl
  next =>
    split at h
    next => rfl
    next => cases h

/-! ## §3. The standard of a generation. -/

structure Generation where
  number : UInt32
  publicKey : Digest
  salt : Id16
  members : Members
  supervisors : Supervisors
  deriving DecidableEq

def Party.entry (party : Party) : String × Digest × Standing :=
  (party.label, party.encryption, party.standing)

def entryBefore (a b : String × Digest × Standing) : Bool :=
  match a.2.2, b.2.2 with
  | .member _, .supervisor => true
  | .supervisor, .member _ => false
  | _, _ => a.1 ≤ b.1

def rosterOf (parties : List Party) : List (String × Digest × Standing) :=
  (parties.map Party.entry).insertionSort fun a b => entryBefore a b = true

structure Standard where
  publicKey : Digest
  salt : Id16
  roster : List (String × Digest × Standing)
  deriving DecidableEq

def Bridge.standard (bridge : Bridge) : Standard :=
  ⟨bridge.publicKey, bridge.salt, rosterOf bridge.parties.rows⟩

def Generation.standard (generation : Generation) : Standard :=
  ⟨generation.publicKey, generation.salt,
    rosterOf (memberParties generation.members none ++ supervisorParties generation.supervisors none)⟩

theorem rosterOf_local (members : Members) (supervisors : Supervisors) (localLabel : Option String) :
    rosterOf (memberParties members localLabel ++ supervisorParties supervisors localLabel)
      = rosterOf (memberParties members none ++ supervisorParties supervisors none) := by
  unfold rosterOf memberParties supervisorParties
  simp only [map_append, map_map]
  rfl

structure Bridge.IsAt (bridge : Bridge) (uid : String) (generation : Generation) : Prop where
  uid_eq : bridge.uid = uid
  live : bridge.destroyed = false
  number_eq : bridge.generation = generation.number
  standard_eq : bridge.standard = generation.standard

variable {generation : Generation}

theorem Bridge.replaceRoster_isAt
    (h : bridge.replaceRoster generation.members generation.supervisors localLabel = .ok bridge')
    (huid : bridge.uid = uid) (hlive : bridge.destroyed = false)
    (hnumber : bridge.generation = generation.number) (hkey : bridge.publicKey = generation.publicKey)
    (hsalt : bridge.salt = generation.salt) : bridge'.IsAt uid generation := by
  obtain ⟨parties, hparties, h⟩ := try_ok h
  cases h
  refine ⟨huid, hlive, hnumber, ?_⟩
  show (⟨bridge.publicKey, bridge.salt, rosterOf parties.rows⟩ : Standard) = _
  rw [insertParties_rows hparties, hkey, hsalt]
  exact congrArg (Standard.mk _ _) (rosterOf_local _ _ _)

theorem Bridge.IsAt.insertSealedKey (hat : bridge.IsAt uid generation)
    (h : bridge.insertSealedKey key = .ok bridge') : bridge'.IsAt uid generation := by
  obtain rfl := Bridge.insertSealedKey_ok h
  exact ⟨hat.uid_eq, hat.live, hat.number_eq, hat.standard_eq⟩

end KeyQuorum.PrivateBridge
