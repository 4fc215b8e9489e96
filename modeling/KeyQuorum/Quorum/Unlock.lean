/-
  **LOCKED FILES AND WHAT AN UNLOCK RELEASES** (`quorum.rs`).

  A file is locked under a fresh data key, which a split tree shares out.
  The vault is the database with its `files` table, and the disk the
  ciphertexts lie on.  Any call of the disk may fail.
-/
import KeyQuorum.KeyTree.Dealing
import KeyQuorum.Quorum.Approval
import KeyQuorum.FileHistory.History
import KeyQuorum.Foundation.First

namespace KeyQuorum

open List Foundation

/-- Authenticated encryption (`crypto.rs`, over `aes-gcm`). -/
class Aead where
  encrypt : (key : Digest) → (nonce : FixedBytes 12) → (plaintext : Bytes) → Bytes
  decrypt : (key : Digest) → (nonce : FixedBytes 12) → (ciphertext : Bytes) → Option Bytes

/-- SQLite's `datetime(text)`, at a moment whose own text is `now`. -/
class SqliteClock where
  datetime : (now text : String) → Option String

/-! ## §1. The disk. -/

/-- Files by path, and which of the next calls fail; past the end of the list none does. -/
structure Disk where
  files : List (Bytes × Bytes) := []
  faults : List Bool := []
  deriving DecidableEq, Repr

namespace Disk

def content (disk : Disk) (path : Bytes) : Option Bytes :=
  (disk.files.find? fun file => file.1 = path).map Prod.snd

def call : Op Disk Error Unit := fun disk =>
  match disk.faults with
  | [] => (.ok (), disk)
  | fault :: rest => (if fault then .error .io else .ok (), { disk with faults := rest })

/-- `Storage::write_new`: an existing file is an error. -/
def writeNew (path bytes : Bytes) : Op Disk Error Unit := do
  call
  let disk ← Op.read
  Op.require (disk.content path).isNone .io
  Op.modify fun disk => { disk with files := disk.files ++ [(path, bytes)] }

/-- `Storage::read`. -/
def readFile (path : Bytes) : Op Disk Error Bytes := do
  call
  let disk ← Op.read
  match disk.content path with
  | some bytes => return bytes
  | none => Op.lift (.error .ioNotFound)

def delete (path : Bytes) : Op Disk Error Unit := do
  call
  let disk ← Op.read
  Op.require (disk.content path).isSome .ioNotFound
  Op.modify fun disk => { disk with files := disk.files.filter fun file => file.1 ≠ path }

end Disk

/-! ## §2. The vault. -/

/-- A row of `files`. -/
structure FileRow where
  id : Nat
  name : String
  encryptedPath : String
  keyId : Nat
  nonce : Bytes
  expiresAt : Option String
  deriving DecidableEq, Repr

/-- The database, its `files` table, and the disk. -/
structure Vault where
  store : Store := {}
  files : List FileRow := []
  disk : Disk := {}
  deriving DecidableEq, Repr

namespace Vault

def onStore {α : Type} (m : Db α) : Op Vault Error α :=
  Op.zoom Vault.store (fun v store => { v with store }) m

def onDisk {α : Type} (m : Op Disk Error α) : Op Vault Error α :=
  Op.zoom Vault.disk (fun v disk => { v with disk }) m

/-- A transaction: an error undoes what was done to the database, and to nothing else. -/
def transaction {α : Type} (m : Op Vault Error α) : Op Vault Error α :=
  Op.rollback (fun before after => { after with store := before.store, files := before.files }) m

/-- Run `m`; if it fails, `cleanup` runs and its result is ignored. -/
def orElseRun {α : Type} (m : Op Vault Error α) (cleanup : Op Vault Error Unit) :
    Op Vault Error α := fun v =>
  match m v with
  | (.ok a, v') => (.ok a, v')
  | (.error e, v') => (.error e, (cleanup v').2)

def fileRow (v : Vault) (fileId : Nat) : Option FileRow := v.files.find? fun row => row.id = fileId

/-- `INSERT INTO files`: the path is unique, the tree exists. -/
def insertFile (row : FileRow) : Op Vault Error Nat := do
  let v ← Op.read
  let id := freshId (v.files.map FileRow.id)
  Op.require ((!v.files.any fun other => other.encryptedPath = row.encryptedPath)
    && v.store.keys.any fun key => key.id = row.keyId) .database
  Op.modify fun v => { v with files := v.files ++ [{ row with id }] }
  return id

def setExpiresAt (fileId : Nat) (expiresAt : Option String) : Op Vault Error Unit := do
  let v ← Op.read
  Op.require (v.fileRow fileId).isSome .database
  Op.modify fun v =>
    { v with files := v.files.map fun row =>
        if row.id = fileId then { row with expiresAt } else row }

section Lock

variable [Sharks] [SealedBoxes] [Aead] (rng : String → Nat) (dataKey : Digest) (nonce : FixedBytes 12)

/-- The database part of `lock_bytes_until_in`. -/
def recordLock (path name : String)
    (spec : NodeSpec) (expiresAt : Option String) : Op Vault Error Nat := do
  let keyId ← onStore (Store.buildTree rng name dataKey.bytes spec)
  insertFile ⟨0, name, path, keyId, nonce.bytes, expiresAt⟩

/-- `lock_bytes_until_in`; the data key and the nonce are the random values drawn. -/
def lockBytesUntilIn
    (plaintext path : Bytes) (name : String) (spec : NodeSpec) (expiresAt : Option String) :
    Op Vault Error Nat := do
  let v ← Op.read
  Op.lift (spec.validate v.store)
  let text ← Op.lift (match utf8? path with
    | some text => .ok text
    | none => .error .invalidPath)
  onDisk (Disk.writeNew path (Aead.encrypt dataKey nonce plaintext))
  orElseRun (transaction (recordLock rng dataKey nonce text name spec expiresAt))
    (onDisk (Disk.delete path))

end Lock

/-! ## §3. Unlocking. -/

/-- The column `expires_at IS NOT NULL AND datetime(expires_at) <= datetime('now')`; a time that
cannot be read gives `NULL`, which is no boolean. -/
def FileRow.expired [SqliteClock] (row : FileRow) (now : String) : Except Error Bool :=
  match row.expiresAt with
  | none => .ok false
  | some text =>
    match SqliteClock.datetime now text with
    | none => .error .database
    | some expiry => .ok (expiry ≤ now)

/-- `delete_ciphertext`: a missing file is fine. -/
def deleteCiphertext (path : String) : Op Vault Error Unit := fun v =>
  match onDisk (Disk.delete (utf8Bytes path)) v with
  | (.error .ioNotFound, v') => (.ok (), v')
  | other => other

def purgeIfExpiredIn [SqliteClock] (now : String) (fileId : Nat) : Op Vault Error Unit := do
  let v ← Op.read
  match v.fileRow fileId with
  | none => pure ()
  | some row => do
      let expired ← Op.lift (FileRow.expired row now)
      if expired then do
        deleteCiphertext row.encryptedPath
        Op.modify fun v => { v with files := v.files.filter fun row => row.id ≠ fileId }
        Op.lift (.error .fileExpired)
      else pure ()

/-- `secret.try_into()`. -/
def dataKeyOf (secret : Bytes) : Except Error Digest :=
  if h : secret.length = 32 then .ok ⟨secret, h⟩ else .error .quorumNotMet

/-- `nonce.try_into()`. -/
def nonceOf (nonce : Bytes) : Except Error (FixedBytes 12) :=
  if h : nonce.length = 12 then .ok ⟨nonce, h⟩ else .error .integrityCheckFailed

section Unlock

variable [Crypto] [Sharks] [Aead] [SqliteClock]

def decryptPresented (now : String) (fileId : Nat) (presented : PresentedReconstruction)
    (grants : List UnlockGrant) : Op Vault Error Bytes := do
  purgeIfExpiredIn now fileId
  let v ← Op.read
  match v.fileRow fileId with
  | none => Op.lift (.error .database)
  | some row => do
      Op.lift (v.store.requireUnlockApproval row.keyId fileId presented.leaves presented.devices grants)
      let dataKey ← Op.lift (dataKeyOf presented.secret)
      let nonce ← Op.lift (nonceOf row.nonce)
      let ciphertext ← onDisk (Disk.readFile (utf8Bytes row.encryptedPath))
      match Aead.decrypt dataKey nonce ciphertext with
      | some plaintext => return plaintext
      | none => Op.lift (.error .integrityCheckFailed)

/-- `unlock_file_with_approval`; `now` and `later` are the clock at its two looks at the expiry.
The rows it adds to `unlock_events` are not modelled: nothing here reads them. -/
def unlockFileWithApproval (now later : String) (fileId : Nat) (rawShares : Nat → Option Bytes)
    (grants : List UnlockGrant) : Op Vault Error Bytes := do
  purgeIfExpiredIn now fileId
  let v ← Op.read
  match v.fileRow fileId with
  | none => Op.lift (.error .database)
  | some row => do
      let presented ← Op.lift (v.store.reconstructPresented row.keyId rawShares)
      decryptPresented later fileId presented grants

end Unlock

/-! ## §4. What stays of a locked file. -/

/-- A file as it was, up to its expiry, unless it is gone; and its ciphertext, unless it is gone. -/
structure Later (fileId : Nat) (v v' : Vault) : Prop where
  row : ∀ row', v'.fileRow fileId = some row' →
    ∃ row, v.fileRow fileId = some row ∧ row' = { row with expiresAt := row'.expiresAt }
  content : ∀ path bytes, v'.disk.content path = some bytes → v.disk.content path = some bytes

instance (fileId : Nat) : IsPreorder Vault (Later fileId) where
  refl v := ⟨fun row hrow => ⟨row, hrow, rfl⟩, fun _ _ h => h⟩
  trans a b c hab hbc := by
    refine ⟨fun row hrow => ?_, fun path bytes h => hab.content path bytes (hbc.content path bytes h)⟩
    obtain ⟨mid, hmid, hrow'⟩ := hbc.row row hrow
    obtain ⟨first, hfirst, hmid'⟩ := hab.row mid hmid
    refine ⟨first, hfirst, ?_⟩
    rw [hrow', hmid']

variable {bytes : Bytes} {disk : Disk}

theorem later_onStore (fileId : Nat) (m : Db α) : Op.Moves (Later fileId) (onStore m) :=
  fun _ => ⟨fun row hrow => ⟨row, hrow, rfl⟩, fun _ _ h => h⟩

def Shrinks (disk disk' : Disk) : Prop :=
  ∀ path bytes, disk'.content path = some bytes → disk.content path = some bytes

instance : IsPreorder Disk Shrinks where
  refl _ := fun _ _ h => h
  trans _ _ _ hab hbc := fun path bytes h => hab path bytes (hbc path bytes h)

theorem call_shrinks : Op.Moves Shrinks Disk.call := by
  intro disk
  unfold Disk.call
  split
  next => exact fun _ _ h => h
  next => exact fun _ _ h => h

theorem delete_shrinks (path : Bytes) : Op.Moves Shrinks (Disk.delete path) := by
  refine .bind call_shrinks fun _ => .read_bind fun _ => .require_bind ?_
  intro disk other bytes h
  obtain ⟨file, hfile, rfl⟩ := Option.map_eq_some_iff.mp h
  change (disk.files.filter _).find? _ = some file at hfile
  rw [find?_filter_ne] at hfile
  split at hfile
  next => cases hfile
  next => exact Option.map_eq_some_iff.mpr ⟨file, hfile, rfl⟩

theorem readFile_shrinks (path : Bytes) : Op.Moves Shrinks (Disk.readFile path) := by
  refine .bind call_shrinks fun _ => .read_bind fun disk => ?_
  cases disk.content path with
  | none => exact fun now => Std.Refl.refl now
  | some bytes => exact Op.Moves.pure bytes

theorem later_onDisk (fileId : Nat) (hm : Op.Moves Shrinks m) : Op.Moves (Later fileId) (onDisk m) :=
  fun v => ⟨fun row hrow => ⟨row, hrow, rfl⟩, hm v.disk⟩

variable {fileId : Nat} {path : Bytes} {v v' : Vault} {expiresAt : Option String}
  {presented : PresentedReconstruction}

theorem later_setExpiresAt : Op.Moves (Later fileId) (setExpiresAt other expiresAt) := by
  refine .read_bind fun _ => .require_bind ?_
  intro v
  refine ⟨fun row' hrow => ?_, fun _ _ h => h⟩
  change (v.files.map _).find? _ = some row' at hrow
  rw [find?_map_ite (by exact fun _ h => h)] at hrow
  split at hrow
  next =>
    obtain ⟨row, hfind, rfl⟩ := Option.map_eq_some_iff.mp hrow
    exact ⟨row, hfind, rfl⟩
  next => exact ⟨row', hrow, rfl⟩

theorem later_deleteCiphertext (fileId : Nat) (path : String) :
    Op.Moves (Later fileId) (deleteCiphertext path) := by
  intro v
  have hmoves := later_onDisk fileId (delete_shrinks (utf8Bytes path)) v
  unfold deleteCiphertext
  split
  next v' hrun =>
    rw [hrun] at hmoves
    exact hmoves
  next => exact hmoves

section Attempts

variable [SqliteClock] {fileId other : Nat} {now : String}

theorem later_purgeIfExpiredIn :
    Op.Moves (Later fileId) (purgeIfExpiredIn now other) := by
  refine .read_bind fun v => ?_
  cases v.fileRow other with
  | none => exact .pure ()
  | some row =>
    refine .lift_bind fun expired => ?_
    cases expired with
    | false => exact .pure ()
    | true =>
      refine .bind (later_deleteCiphertext fileId _) fun _ => ?_
      refine Op.Moves.bind (fun w => ⟨fun row hrow => ?_, fun _ _ h => h⟩)
        fun _ w => Std.Refl.refl w
      -- deleting rows of one id leaves the others, and none of that id
      change (w.files.filter fun row => row.id ≠ other).find? _ = some row at hrow
      rw [find?_filter_ne] at hrow
      split at hrow
      next => cases hrow
      next => exact ⟨row, hrow, rfl⟩

variable [Crypto] [Aead] {grants : List UnlockGrant}

theorem later_decryptPresented :
    Op.Moves (Later fileId) (decryptPresented now other presented grants) := by
  refine .bind later_purgeIfExpiredIn fun _ => ?_
  refine .read_bind fun v => ?_
  cases v.fileRow other with
  | none => exact fun w => Std.Refl.refl w
  | some row =>
    refine .lift_bind fun _ => .lift_bind fun dataKey => .lift_bind fun nonce => ?_
    refine .bind (later_onDisk fileId (readFile_shrinks _)) fun ciphertext => ?_
    cases Aead.decrypt dataKey nonce ciphertext with
    | none => exact fun w => Std.Refl.refl w
    | some plaintext => exact Op.Moves.pure plaintext

variable [Sharks]

theorem later_unlock :
    Op.Moves (Later fileId) (unlockFileWithApproval now later other rawShares grants) := by
  refine .bind later_purgeIfExpiredIn fun _ => ?_
  refine .read_bind fun v => ?_
  cases v.fileRow other with
  | none => exact fun w => Std.Refl.refl w
  | some row =>
    exact .lift_bind fun presented => later_decryptPresented

/-- What may happen to a vault after a file was locked: any operation on the other tables (custody
policies, placements, trees, keys), a new expiry, a purge, an unlock attempt. -/
inductive Change where
  | store (m : Db Unit)
  | expiry (fileId : Nat) (expiresAt : Option String)
  | purge (now : String) (fileId : Nat)
  | unlock (now later : String) (fileId : Nat) (rawShares : Nat → Option Bytes)
      (grants : List UnlockGrant)

def Change.run (v : Vault) : Change → Vault
  | .store m => (onStore m v).2
  | .expiry fileId expiresAt => (setExpiresAt fileId expiresAt v).2
  | .purge now fileId => (purgeIfExpiredIn now fileId v).2
  | .unlock now later fileId rawShares grants =>
    (unlockFileWithApproval now later fileId rawShares grants v).2

theorem Change.later (fileId : Nat) (v : Vault) (change : Change) : Later fileId v (change.run v) := by
  cases change with
  | store m => exact later_onStore fileId m v
  | expiry other expiresAt => exact later_setExpiresAt v
  | purge now other => exact later_purgeIfExpiredIn v
  | unlock now later other => exact later_unlock v

/-- **A run of changes** leaves the row and the ciphertext, or removes them. -/
theorem later_run (fileId : Nat) (v : Vault) (changes : List Change) :
    Later fileId v (changes.foldl Change.run v) := by
  induction changes generalizing v with
  | nil => exact Std.Refl.refl v
  | cons change rest ih => exact IsTrans.trans _ _ _ (change.later fileId v) (ih (change.run v))

end Attempts

/-! ## §5. What a lock has written. -/

theorem writeNew_ok
    (h : Disk.writeNew path bytes disk = (.ok u, disk')) : disk'.content path = some bytes := by
  obtain ⟨_, mid, -, h⟩ := Op.bind_ok h
  obtain ⟨hnone, h⟩ := Op.require_bind_ok (Op.read_bind_ok h)
  rw [Op.modify_ok h]
  have hfind : mid.files.find? (fun file => file.1 = path) = none := by
    simpa [Disk.content] using hnone
  show ((mid.files ++ [(path, bytes)]).find? _).map _ = some bytes
  rw [find?_append, hfind]
  simp

theorem insertFile_ok {id : Nat} (h : insertFile row v = (.ok id, v')) :
    v'.fileRow id = some { row with id } ∧ v'.disk = v.disk := by
  obtain ⟨-, h⟩ := Op.require_bind_ok (Op.read_bind_ok h)
  obtain ⟨rfl, rfl⟩ := Op.modify_pure_ok h
  have hfind : v.files.find? (fun other => other.id = freshId (v.files.map FileRow.id)) = none := by
    rw [List.find?_eq_none]
    intro other hother hid
    have hid : other.id = freshId (v.files.map FileRow.id) := by simpa using hid
    exact freshId_not_mem (v.files.map FileRow.id) (mem_map.mpr ⟨other, hother, hid⟩)
  refine ⟨?_, rfl⟩
  show (v.files ++ [_]).find? _ = _
  rw [find?_append, hfind]
  simp

/-- **What a lock has written**: the row, and under its path the ciphertext of the plaintext. -/
theorem lock_row [Sharks] [SealedBoxes] [Aead] {rng : String → Nat} {dataKey : Digest}
    {nonce : FixedBytes 12} {plaintext : Bytes} {name : String} {spec : NodeSpec}
    (h : lockBytesUntilIn rng dataKey nonce plaintext path name spec expiresAt v = (.ok fileId, v')) :
    ∃ row, v'.fileRow fileId = some row ∧ utf8Bytes row.encryptedPath = path
      ∧ v'.disk.content path = some (Aead.encrypt dataKey nonce plaintext) := by
  obtain ⟨_, -, h⟩ := Op.lift_bind_ok (Op.read_bind_ok h)
  obtain ⟨text, htext, h⟩ := Op.lift_bind_ok h
  obtain ⟨_, written, hwrite, h⟩ := Op.bind_ok h
  obtain ⟨disk, hdisk, rfl⟩ := Op.zoom_ok hwrite
  have hpath : utf8Bytes text = path := by
    cases hutf : utf8? path with
    | none =>
      rw [hutf] at htext
      cases htext
    | some found =>
      rw [hutf] at htext
      cases htext
      exact utf8Bytes_of_utf8? hutf
  unfold orElseRun at h
  split at h
  next id final hrun =>
    obtain ⟨hid, rfl⟩ := Prod.mk.inj h
    cases hid
    obtain ⟨keyId, mid, htree, hinsert⟩ := Op.bind_ok (Op.rollback_ok hrun)
    obtain ⟨store, -, rfl⟩ := Op.zoom_ok htree
    obtain ⟨hrow, hsame⟩ := insertFile_ok hinsert
    refine ⟨_, hrow, hpath, ?_⟩
    rw [hsame]
    exact writeNew_ok hdisk
  next => cases h

/-! ## §6. What an unlock has checked. -/

theorem purgeIfExpiredIn_ok [SqliteClock] (h : purgeIfExpiredIn now fileId v = (.ok u, v')) :
    v' = v ∧ ∀ row, v.fileRow fileId = some row → FileRow.expired row now = .ok false := by
  have h := Op.read_bind_ok h
  cases hrow : v.fileRow fileId with
  | none =>
    rw [hrow] at h
    obtain ⟨-, rfl⟩ := Op.pure_ok h
    exact ⟨rfl, fun row h => by cases h⟩
  | some row =>
    rw [hrow] at h
    obtain ⟨expired, hexpired, h⟩ := Op.lift_bind_ok h
    cases expired with
    | true =>
      obtain ⟨_, _, -, h⟩ := Op.bind_ok h
      cases h
    | false =>
      obtain ⟨-, rfl⟩ := Op.pure_ok h
      refine ⟨rfl, fun other hother => ?_⟩
      cases hother
      exact hexpired

theorem readFile_ok
    (h : Disk.readFile path disk = (.ok bytes, disk')) : disk.content path = some bytes := by
  obtain ⟨_, mid, hcall, h⟩ := Op.bind_ok h
  have h := Op.read_bind_ok h
  have hsame : mid.content path = disk.content path := by
    unfold Disk.call at hcall
    split at hcall
    next => rw [(Prod.mk.inj hcall).2]
    next => rw [← (Prod.mk.inj hcall).2]; rfl
  rw [← hsame]
  cases hfile : mid.content path with
  | none =>
    rw [hfile] at h
    cases h
  | some found =>
    rw [hfile] at h
    rw [(Op.pure_ok h).1]

section Released

variable [Crypto] [Sharks] [Aead] [SqliteClock] {rawShares : Nat → Option Bytes} {now later : String}
  {grants : List UnlockGrant} {plaintext : Bytes}

/-- **What a successful unlock has checked**: the file is in time at both looks, the shares
reconstruct, the leaves are approved, and the ciphertext opens. -/
theorem unlock_ok
    (h : unlockFileWithApproval now later fileId rawShares grants v = (.ok plaintext, v')) :
    ∃ row presented dataKey nonce ciphertext, v.fileRow fileId = some row
      ∧ FileRow.expired row now = .ok false ∧ FileRow.expired row later = .ok false
      ∧ v.store.reconstructPresented row.keyId rawShares = .ok presented
      ∧ v.store.requireUnlockApproval row.keyId fileId presented.leaves presented.devices grants = .ok ()
      ∧ v.disk.content (utf8Bytes row.encryptedPath) = some ciphertext
      ∧ Aead.decrypt dataKey nonce ciphertext = some plaintext := by
  obtain ⟨_, mid, hpurge, hrun⟩ := Op.bind_ok h
  obtain ⟨hmid, hintime⟩ := purgeIfExpiredIn_ok hpurge
  rw [hmid] at hrun
  have hrun := Op.read_bind_ok hrun
  cases hrow : v.fileRow fileId with
  | none =>
    rw [hrow] at hrun
    cases hrun
  | some row =>
    rw [hrow] at hrun
    obtain ⟨presented, hpresented, hrun⟩ := Op.lift_bind_ok hrun
    obtain ⟨_, again, hagain, hrun⟩ := Op.bind_ok hrun
    obtain ⟨hsame, hstill⟩ := purgeIfExpiredIn_ok hagain
    rw [hsame] at hrun
    have h := Op.read_bind_ok hrun
    rw [hrow] at h
    obtain ⟨_, happroved, h⟩ := Op.lift_bind_ok h
    obtain ⟨dataKey, -, h⟩ := Op.lift_bind_ok h
    obtain ⟨nonce, -, h⟩ := Op.lift_bind_ok h
    obtain ⟨ciphertext, final, hread, h⟩ := Op.bind_ok h
    obtain ⟨disk, hdisk, rfl⟩ := Op.zoom_ok hread
    refine ⟨row, presented, dataKey, nonce, ciphertext, rfl, hintime row hrow, hstill row hrow,
      hpresented, happroved, readFile_ok hdisk, ?_⟩
    cases hopen : Aead.decrypt dataKey nonce ciphertext with
    | none =>
      rw [hopen] at h
      cases h
    | some opened =>
      rw [hopen] at h
      rw [(Op.pure_ok h).1]

/-! ## §7. What an unlock releases. -/

/-- What AES-GCM promises of one ciphertext: under any key and nonce it opens as the plaintext it
was made from, or not at all. -/
def OpensOnlyAs (dataKey : Digest) (nonce : FixedBytes 12) (plaintext : Bytes) : Prop :=
  ∀ key other opened, Aead.decrypt key other (Aead.encrypt dataKey nonce plaintext) = some opened →
    opened = plaintext

/-- What Ed25519 promises: a signature that verifies was made with the key, by a signer who meant
that message. -/
def Unforgeable (signed : List (Digest × Bytes)) : Prop :=
  ∀ publicKey message signature, verifySignature publicKey message signature = .ok () →
    (publicKey, message) ∈ signed

/-- What an unlock of a file has to rest on before it releases anything. -/
structure Permitted (v : Vault) (signed : List (Digest × Bytes)) (now later : String) (fileId : Nat)
    (rawShares : Nat → Option Bytes) (grants : List UnlockGrant) : Prop where
  inTime : ∀ row, v.fileRow fileId = some row →
    FileRow.expired row now = .ok false ∧ FileRow.expired row later = .ok false
  approved : ∀ row policy, v.fileRow fileId = some row → v.store.custodyPolicy row.keyId = .ok policy →
    policy.unlockApproval = .parent →
      ∃ presented, v.store.reconstructPresented row.keyId rawShares = .ok presented
        ∧ ∃ deviceIds : List Id16, (∀ device, device ∈ deviceIds
            ↔ ∃ leaf ∈ presented.leaves, v.store.deviceOf leaf.hardwareKeyId = some device)
        ∧ ∀ leaf ∈ presented.leaves, ∃ parent publicKey digest,
          v.store.Approved row.keyId fileId deviceIds grants leaf parent publicKey digest
            ∧ (publicKey, digest.bytes) ∈ signed
            -- a signature over anything else is a signature over another digest
            ∧ ∀ messages, CollisionFree messages → ∀ other input, other.input = .ok input →
                input ∈ messages →
                (∀ own, (Store.approvalOf row.keyId fileId deviceIds leaf.leafLabel parent).input
                  = .ok own → own ∈ messages) →
                other.preimage = .ok digest →
                other = Store.approvalOf row.keyId fileId deviceIds leaf.leafLabel parent

omit [Aead] [SqliteClock] in
theorem reconstructPresented_devices {db : Store}
    (h : db.reconstructPresented keyId rawShares = .ok presented) :
    db.enforceDevices keyId presented.leaves = .ok presented.devices := by
  unfold Store.reconstructPresented at h
  obtain ⟨tree, -, h⟩ := try_ok h
  obtain ⟨⟨secret, leaves⟩, -, h⟩ := try_ok h
  obtain ⟨devices, hdevices, h⟩ := try_ok h
  cases h
  exact hdevices

theorem unlock_permitted (hsigned : Unforgeable signed)
    (h : unlockFileWithApproval now later fileId rawShares grants v = (.ok plaintext, v')) :
    v.Permitted signed now later fileId rawShares grants := by
  obtain ⟨row, presented, _, _, _, hrow, hnow, hlater, hpresented, happroval, -⟩ := unlock_ok h
  refine ⟨fun other hother => ?_, fun other policy hother hpolicy hparent => ?_⟩
  · rw [hrow] at hother
    cases hother
    exact ⟨hnow, hlater⟩
  · rw [hrow] at hother
    cases hother
    obtain ⟨found, hfound, hleaves⟩ := Store.requireUnlockApproval_ok happroval
    rw [hpolicy] at hfound
    cases hfound
    refine ⟨presented, hpresented, _,
      Store.mem_sortIds_devices (reconstructPresented_devices hpresented), fun leaf hleaf => ?_⟩
    obtain ⟨parent, publicKey, digest, happroved⟩ := hleaves hparent leaf hleaf
    obtain ⟨grant, hgrant, hleafLabel, hparentLabel, hverify⟩ := happroved.granted
    refine ⟨parent, publicKey, digest, happroved, hsigned _ _ _ hverify, ?_⟩
    intro messages hfree other input hinput hin hown hsame
    obtain ⟨bytes, hbytes, rfl⟩ := Approval.preimage_ok happroved.preimage
    obtain ⟨bytes', hbytes', hdigest⟩ := Approval.preimage_ok hsame
    rw [hinput] at hbytes'
    obtain rfl := Except.ok.inj hbytes'
    have heq := hfree _ (hown bytes hbytes) _ hin hdigest
    exact Approval.input_injective (heq ▸ hinput) hbytes

/-- **What an unlock releases.**  After any lock and any later run of changes, an unlock returns an
error, or exactly the plaintext that was locked; and the latter only in time and, where the tree
asks for it, with every leaf approved by its direct parent for this very unlock. -/
theorem unlock_releases [SealedBoxes] {rng : String → Nat} {dataKey : Digest} {nonce : FixedBytes 12}
    {plaintext path : Bytes} {name : String} {spec : NodeSpec} {expiresAt : Option String}
    {fileId : Nat} {before locked : Vault}
    (hlock : lockBytesUntilIn rng dataKey nonce plaintext path name spec expiresAt before
      = (.ok fileId, locked))
    (haead : OpensOnlyAs dataKey nonce plaintext) {signed : List (Digest × Bytes)}
    (hsigned : Unforgeable signed) (changes : List Change) (now later : String)
    (rawShares : Nat → Option Bytes) (grants : List UnlockGrant) :
    (∃ e, (unlockFileWithApproval now later fileId rawShares grants
        (changes.foldl Change.run locked)).1 = .error e)
      ∨ (unlockFileWithApproval now later fileId rawShares grants
          (changes.foldl Change.run locked)).1 = .ok plaintext
        ∧ (changes.foldl Change.run locked).Permitted signed now later fileId rawShares grants := by
  cases hresult : (unlockFileWithApproval now later fileId rawShares grants
    (changes.foldl Change.run locked)).1 with
  | error e => exact .inl ⟨e, rfl⟩
  | ok released =>
    have hrun := Op.run_eq hresult
    refine .inr ⟨?_, unlock_permitted hsigned hrun⟩
    obtain ⟨row, _, key, other, ciphertext, hrow, -, -, -, -, hcontent, hopen⟩ := unlock_ok hrun
    -- the row still names the path of the lock, and the disk still holds its ciphertext there
    obtain ⟨written, hwritten, hpath, hcipher⟩ := lock_row hlock
    have hkept := later_run fileId locked changes
    obtain ⟨kept, hkeptRow, hsame⟩ := hkept.row row hrow
    rw [hwritten] at hkeptRow
    cases hkeptRow
    have hpathEq : row.encryptedPath = written.encryptedPath := by rw [hsame]
    rw [hpathEq, hpath] at hcontent
    have hcipherEq := hkept.content path ciphertext hcontent
    rw [hcipher] at hcipherEq
    cases hcipherEq
    rw [haead key other released hopen]

end Released

namespace Sample

/-- The key `M` approves with. -/
def parentKey : Digest := ⟨replicate 32 3, rfl⟩

/-- The leaves of `M`, and the SHA-256 digest of the approval of each with the devices 1 and 2. -/
def approvals : List (String × Digest) := [
  ("M.S", .ofNat 32 0x2e01862a130c6704f8d81f38d99465ce5e72d0b5021c8ee9f706ebe870bc1a93),
  ("M.T", .ofNat 32 0xcc549f8840338780c6e9383c642251b3a7d049330eb6181606c8e8eb80f9f765)]

/-- A scheme in which `M` has signed the two approvals. -/
@[reducible] def approvalCrypto : Crypto :=
  Crypto.known (approvals.map fun approval =>
      (((Approval.mk 1 1 approval.1 "M" [.ofNat 16 1, .ofNat 16 2]).input).toOption.getD [], approval.2))
    (approvals.map fun approval => (parentKey, approval.2.bytes, FixedBytes.zero 64))

@[reducible] def namingAead : Aead where
  encrypt key nonce plaintext := key.bytes ++ (nonce.bytes ++ plaintext)
  decrypt key nonce ciphertext :=
    if ciphertext.take 44 = key.bytes ++ nonce.bytes then some (ciphertext.drop 44) else none

@[reducible] def plainClock : SqliteClock where
  datetime _ text := some text

def dataKey : Digest := .ofNat 32 5

/-- A store that knows the encryption keys of two leaves, on a device each, and their parent's
signing key. -/
def registered : Vault :=
  { store := {
      hardwareKeys := [Store.Sample.memberKey 1 "M.S", Store.Sample.memberKey 2 "M.T",
        { Store.Sample.memberKey 3 "M" with keyType := .signing }]
      placements := [⟨1, .ofNat 16 1, "M.S"⟩, ⟨2, .ofNat 16 2, "M.T"⟩] } }

section Run

attribute [local instance] approvalCrypto namingAead plainClock Sharks.gf256 SealedBoxes.toy

/-- Both leaves are needed. -/
def bothLeaves : NodeSpec := .split "M" 2 [.leaf "M.S" 1 [], .leaf "M.T" 2 []] []

def locking : Op Vault Error Nat :=
  lockBytesUntilIn (fun _ => 0) dataKey (FixedBytes.zero 12) (utf8Bytes "hello") (utf8Bytes "a.kq")
    "a" bothLeaves (some "2026-06-01")

/-- The file's tree asks for two devices and for the parent's approval. -/
def guarding : Change :=
  .store (Op.modify fun db => { db with keys := db.keys.map fun key =>
    { key with custodyMode := .hardware, minimumPhysicalDevices := 2, unlockApproval := .parent } })

def leafShares (node : Nat) : Option Bytes :=
  ([(2, "M.S"), (3, "M.T")].lookup node).bind (dealtShare (fun _ => 0) dataKey.bytes bothLeaves)

theorem opensOnlyAs_naming (nonce : FixedBytes 12) (plaintext : Bytes) :
    OpensOnlyAs dataKey nonce plaintext := by
  intro key other opened h
  change (if _ then some ((dataKey.bytes ++ (nonce.bytes ++ plaintext)).drop 44) else none)
    = some opened at h
  split at h
  next =>
    rw [← append_assoc, drop_append_of_le_length (by simp), drop_of_length_le (by simp), nil_append] at h
    exact (Option.some.inj h).symm
  next => cases h

/-- What `M` has signed. -/
def signed : List (Digest × Bytes) := approvals.map fun approval => (parentKey, approval.2.bytes)

theorem unforgeable_approvals : Unforgeable signed := by
  intro publicKey message signature h
  obtain ⟨-, h⟩ := else_ok h
  obtain ⟨hverify, h⟩ := then_ok h
  obtain ⟨entry, hentry, heq⟩ := any_eq_true.mp hverify
  obtain ⟨approval, happroval, rfl⟩ := mem_map.mp hentry
  rw [decide_eq_true_eq, Prod.mk.injEq, Prod.mk.injEq] at heq
  rw [← heq.1, ← heq.2.1]
  exact mem_map_of_mem happroval

def guarded : Vault := [guarding].foldl Change.run (locking registered).2

/-- What `M` grants. -/
def grantsOfM : List UnlockGrant := approvals.map fun approval => ⟨approval.1, "M", FixedBytes.zero 64⟩

/-- With the parent's grants the file opens; with one of them, and after its expiry, it does not. -/
theorem unlock_releases_approved :
    (unlockFileWithApproval "2026-05-01" "2026-05-01" 1 leafShares grantsOfM guarded).1
        = .ok (utf8Bytes "hello")
      ∧ guarded.Permitted signed "2026-05-01" "2026-05-01" 1 leafShares grantsOfM
      ∧ (unlockFileWithApproval "2026-05-01" "2026-05-01" 1 leafShares (grantsOfM.take 1) guarded).1
        = .error .unlockApprovalRequired
      ∧ (unlockFileWithApproval "2026-07-01" "2026-07-01" 1 leafShares grantsOfM guarded).1
        = .error .fileExpired := by
  have hopens : (unlockFileWithApproval "2026-05-01" "2026-05-01" 1 leafShares grantsOfM guarded).1
      = .ok (utf8Bytes "hello") := by decide +kernel
  refine ⟨hopens, ?_, by decide +kernel, by decide +kernel⟩
  have hlock : locking registered = (.ok 1, (locking registered).2) :=
    Op.run_eq (by decide +kernel)
  rcases unlock_releases hlock (opensOnlyAs_naming _ _) unforgeable_approvals [guarding]
    "2026-05-01" "2026-05-01" leafShares grantsOfM with ⟨e, he⟩ | ⟨-, hpermitted⟩
  · exact absurd (hopens.symm.trans he) (by simp)
  · exact hpermitted

end Run

end Sample

end Vault

end KeyQuorum
