/-
  **TAKING A PACKAGE IN** (`private_bridge.rs`, `import_package` with
  `insert_from_invite`, `apply_rotate` and `apply_destroy`).

  An invitation and a rotation are checked against the recipient they name:
  the label has to stand on the roster, in its role, with the key the letter
  was sealed to.  A destroy notice is not: it takes effect in every store
  whose copy of the bridge has the key that signed it.
-/
import KeyQuorum.PrivateBridge.Removal

namespace KeyQuorum.PrivateBridge

open Foundation Letter

/-! ## §1. Checks. -/

def validateDecodedRecipient (decoded : DecodedPackage) : Except Error Unit :=
  let expected : Option Digest := match decoded.role with
    | .member => (decoded.members.get? decoded.recipientLabel).map MemberKeys.encryption
    | .supervisor => decoded.supervisors.get? decoded.recipientLabel
  if expected = some decoded.recipientPublicKey then .ok () else .error .invalidBridgePackage

def verifyUpdateAuth [Crypto] (decoded : DecodedPackage) (oldPublic : Digest) : Except Error Unit := do
  let signature ← okOr decoded.authSig .invalidBridgePackage
  let preimage ← updateAuthPreimage decoded.uid decoded.generation decoded.kind decoded.publicKey
    decoded.salt decoded.recipientLabel decoded.members decoded.supervisors decoded.removedLabel
  verifySignature oldPublic preimage signature

def emptyToNone (s : String) : Option String := if s.isEmpty then none else some s

/-! ## §2. The three changes. -/

section Crypto

variable [SealedBoxes]

/-- `replace_roster_and_secret`, on a row whose party rows are gone. -/
def Bridge.replaceRosterAndSecret (bridge : Bridge) (decoded : DecodedPackage) (seed : Nat) :
    Except Error Bridge := do
  let filled ← bridge.replaceRoster decoded.members decoded.supervisors (some decoded.recipientLabel)
  match decoded.secret, decoded.role with
  | some (wrapSalt, secret), .member => do
      let wrapped ← sealBridgeSecret decoded.recipientPublicKey wrapSalt secret seed
      filled.insertSealedKey ⟨decoded.recipientLabel, wrapSalt, wrapped⟩
  | _, _ => .ok filled

def invitedRow (decoded : DecodedPackage) : Bridge :=
  { uid := decoded.uid, keyId := none, label := emptyToNone decoded.bridgeLabel
    generation := decoded.generation, publicKey := decoded.publicKey, salt := decoded.salt
    destroyed := false, parties := Table.empty, sealedKeys := Table.empty }

def invitedBridge (decoded : DecodedPackage) (seed : Nat) : Except Error Bridge := do
  checkGeneration decoded.generation
  (invitedRow decoded).replaceRosterAndSecret decoded seed

def insertFromInvite (decoded : DecodedPackage) (seed : Nat) : Op Rosters Error Unit := do
  Op.lift (validateDecodedRecipient decoded)
  let db ← Op.read
  Op.require (db.find? decoded.uid).isNone .invalidBridge
  let bridge ← Op.lift (invitedBridge decoded seed)
  Op.modify fun db => db.add bridge

/-- The transaction of `apply_rotate`. -/
def Bridge.rotatedBy (bridge : Bridge) (decoded : DecodedPackage) (seed : Nat) :
    Except Error Bridge := do
  checkGeneration decoded.generation
  Bridge.replaceRosterAndSecret { bridge with
      generation := decoded.generation, publicKey := decoded.publicKey, salt := decoded.salt
      label := (emptyToNone decoded.bridgeLabel).or bridge.label } decoded seed

variable [Crypto]

def applyRotate (decoded : DecodedPackage) (seed : Nat) : Op Rosters Error Unit := do
  Op.lift (validateDecodedRecipient decoded)
  let db ← Op.read
  let bridge ← Op.lift (db.get decoded.uid)
  Op.require (!bridge.destroyed) .bridgeDestroyed
  Op.require (decoded.generation = bridge.generation + 1) .bridgeGenerationMismatch
  Op.lift (verifyUpdateAuth decoded bridge.publicKey)
  alter decoded.uid .bridgeGenerationMismatch fun bridge => bridge.rotatedBy decoded seed

/-- The transaction of `apply_destroy`. -/
def Bridge.destroy (bridge : Bridge) : Bridge :=
  { bridge with destroyed := true, sealedKeys := Table.empty }

/-- `apply_destroy`; a bridge that is destroyed already stays as it is. -/
def applyDestroy (decoded : DecodedPackage) : Op Rosters Error Unit := do
  let db ← Op.read
  let bridge ← Op.lift (db.get decoded.uid)
  if bridge.destroyed then pure ()
  else do
    Op.lift (verifyUpdateAuth decoded bridge.publicKey)
    alter decoded.uid .bridgeNotFound fun bridge => .ok bridge.destroy

def applyDecoded (decoded : DecodedPackage) (seed : Nat) : Op Rosters Error Unit :=
  if decoded.kind = kindInvite then insertFromInvite decoded seed
  else if decoded.kind = kindSupervisor ∧ decoded.generation = 1 ∧ decoded.authSig = none then
    insertFromInvite decoded seed
  else if decoded.kind = kindRotate ∨ decoded.kind = kindSupervisor then applyRotate decoded seed
  else if decoded.kind = kindDestroy then applyDestroy decoded
  else Op.lift (.error .invalidBridgePackage)

/-! ## §3. What an import does. -/

def DecodedPackage.announced (decoded : DecodedPackage) : Generation :=
  ⟨decoded.generation, decoded.publicKey, decoded.salt, decoded.members, decoded.supervisors⟩

variable {bridge : Bridge} {decoded : DecodedPackage} {seed : Nat} {db db' : Rosters} {u : Unit}

section

variable (decoded : DecodedPackage) (db db' : Rosters)

/-- The bridge is new here and is at the generation the package announces. -/
def Invited : Prop :=
  db.find? decoded.uid = none
    ∧ ∃ bridge : Bridge, bridge.IsAt decoded.uid decoded.announced ∧ db' = db.add bridge

def Rotated : Prop :=
  ∃ bridge bridge' : Bridge, db.find? decoded.uid = some bridge ∧ bridge.destroyed = false
    ∧ decoded.generation = bridge.generation + 1
    ∧ verifyUpdateAuth decoded bridge.publicKey = .ok ()
    ∧ bridge'.IsAt decoded.uid decoded.announced ∧ db' = db.put bridge'

def Destroyed : Prop :=
  ∃ bridge : Bridge, db.find? decoded.uid = some bridge ∧ ((bridge.destroyed = true ∧ db' = db)
      ∨ (bridge.destroyed = false ∧ verifyUpdateAuth decoded bridge.publicKey = .ok ()
        ∧ db' = db.put bridge.destroy))

end

section

omit [Crypto]

variable {bridge' : Bridge}

/-- A row that has the columns a package announces is at its generation once roster and secret are
replaced. -/
theorem Bridge.replaceRosterAndSecret_isAt {uid : String}
    (h : bridge.replaceRosterAndSecret decoded seed = .ok bridge') (huid : bridge.uid = uid)
    (hlive : bridge.destroyed = false) (hnumber : bridge.generation = decoded.generation)
    (hkey : bridge.publicKey = decoded.publicKey) (hsalt : bridge.salt = decoded.salt) :
    bridge'.IsAt uid decoded.announced := by
  obtain ⟨filled, hfilled, h⟩ := try_ok h
  have hat : filled.IsAt uid decoded.announced :=
    Bridge.replaceRoster_isAt hfilled huid hlive hnumber hkey hsalt
  split at h
  next =>
    obtain ⟨wrapped, -, h⟩ := try_ok h
    exact hat.insertSealedKey h
  next =>
    cases h
    exact hat

theorem invitedBridge_isAt
    (h : invitedBridge decoded seed = .ok bridge) : bridge.IsAt decoded.uid decoded.announced := by
  obtain ⟨-, -, h⟩ := try_ok h
  exact Bridge.replaceRosterAndSecret_isAt h rfl rfl rfl rfl rfl

theorem Bridge.rotatedBy_isAt (hlive : bridge.destroyed = false)
    (h : bridge.rotatedBy decoded seed = .ok bridge') : bridge'.IsAt bridge.uid decoded.announced := by
  obtain ⟨-, -, h⟩ := try_ok h
  exact Bridge.replaceRosterAndSecret_isAt h rfl hlive rfl rfl rfl

theorem insertFromInvite_ok
    (h : insertFromInvite decoded seed db = (.ok u, db')) : Invited decoded db db' := by
  obtain ⟨-, -, h⟩ := Op.lift_bind_ok h
  have h := Op.read_bind_ok h
  obtain ⟨hnew, h⟩ := Op.require_bind_ok h
  obtain ⟨bridge, hbridge, h⟩ := Op.lift_bind_ok h
  exact ⟨Option.isNone_iff_eq_none.mp hnew, bridge, invitedBridge_isAt hbridge, Op.modify_ok h⟩

theorem insertFromInvite_atomic :
    Op.Atomic (insertFromInvite decoded seed) :=
  .lift_bind fun _ => .read_bind fun _ => .require_bind (.lift_bind fun _ => .modify _)

end

theorem applyRotate_ok (h : applyRotate decoded seed db = (.ok u, db')) :
    Rotated decoded db db' ∧ 0 < decoded.generation := by
  obtain ⟨-, -, h⟩ := Op.lift_bind_ok h
  have h := Op.read_bind_ok h
  obtain ⟨bridge, hbridge, h⟩ := Op.lift_bind_ok h
  obtain ⟨hlive, h⟩ := Op.require_bind_ok h
  obtain ⟨hnext, h⟩ := Op.require_bind_ok h
  obtain ⟨⟨⟩, hauth, h⟩ := Op.lift_bind_ok h
  obtain ⟨found, bridge', hfound, hrotated, rfl⟩ := alter_ok h
  have hget : db.find? decoded.uid = some bridge := okOr_ok hbridge
  obtain rfl := Option.mem_unique hget hfound
  have hlive : bridge.destroyed = false := by simpa using hlive
  have huid : bridge.uid = decoded.uid := (Table.find?_some hget).2
  obtain ⟨_, hpositive, -⟩ := try_ok hrotated
  exact ⟨⟨bridge, bridge', hget, hlive, by simpa using hnext, hauth,
    huid ▸ Bridge.rotatedBy_isAt hlive hrotated, rfl⟩, (then_ok hpositive).1⟩

omit [SealedBoxes] in
theorem applyDestroy_ok (h : applyDestroy decoded db = (.ok u, db')) : Destroyed decoded db db' := by
  have h := Op.read_bind_ok h
  obtain ⟨bridge, hbridge, h⟩ := Op.lift_bind_ok h
  have hget : db.find? decoded.uid = some bridge := okOr_ok hbridge
  refine ⟨bridge, hget, ?_⟩
  split at h
  next hdestroyed => exact .inl ⟨hdestroyed, (Op.pure_ok h).2.symm⟩
  next hlive =>
    obtain ⟨⟨⟩, hauth, h⟩ := Op.lift_bind_ok h
    obtain ⟨found, bridge', hfound, hdestroy, rfl⟩ := alter_ok h
    obtain rfl := Option.mem_unique hget hfound
    cases hdestroy
    exact .inr ⟨by simpa using hlive, hauth, rfl⟩

omit [SealedBoxes] in
theorem applyDestroy_of_auth (hfound : db.find? decoded.uid = some bridge)
    (hlive : bridge.destroyed = false) (hauth : verifyUpdateAuth decoded bridge.publicKey = .ok ()) :
    applyDestroy decoded db = (.ok (), db.put bridge.destroy) := by
  have hget : Rosters.get db decoded.uid = .ok bridge := by
    unfold Rosters.get
    rw [hfound]
    rfl
  unfold applyDestroy
  rw [Op.read_bind, Op.lift_bind hget, if_neg (by rw [hlive]; decide), Op.lift_bind hauth]
  exact alter_of_ok hfound rfl

theorem applyDecoded_ok (h : applyDecoded decoded seed db = (.ok u, db')) :
    (decoded.kind ≠ kindDestroy ∧ Invited decoded db db')
      ∨ (decoded.kind ≠ kindDestroy ∧ Rotated decoded db db' ∧ 0 < decoded.generation)
      ∨ (decoded.kind = kindDestroy ∧ Destroyed decoded db db') := by
  unfold applyDecoded at h
  split at h
  next hkind => exact .inl ⟨by rw [hkind]; decide, insertFromInvite_ok h⟩
  next =>
    split at h
    next hkind => exact .inl ⟨by rw [hkind.1]; decide, insertFromInvite_ok h⟩
    next =>
      split at h
      next hkind =>
        refine .inr (.inl ⟨?_, applyRotate_ok h⟩)
        rcases hkind with hkind | hkind
        · rw [hkind]
          decide
        · rw [hkind]
          decide
      next =>
        split at h
        next hkind => exact .inr (.inr ⟨hkind, applyDestroy_ok h⟩)
        next => exact absurd h (by simp [Op.lift])

theorem applyRotate_atomic (decoded : DecodedPackage) (seed : Nat) :
    Op.Atomic (applyRotate decoded seed) :=
  .lift_bind fun _ => .read_bind fun _ => .lift_bind fun _ =>
    .require_bind (.require_bind (.lift_bind fun _ => alter_atomic))

omit [SealedBoxes] in
theorem applyDestroy_atomic (decoded : DecodedPackage) : Op.Atomic (applyDestroy decoded) := by
  refine .read_bind fun _ => .lift_bind fun bridge => ?_
  split
  · exact .pure ()
  · exact .lift_bind fun _ => alter_atomic

theorem applyDecoded_atomic (decoded : DecodedPackage) (seed : Nat) :
    Op.Atomic (applyDecoded decoded seed) := by
  unfold applyDecoded
  split
  · exact insertFromInvite_atomic
  · split
    · exact insertFromInvite_atomic
    · split
      · exact applyRotate_atomic decoded seed
      · split
        · exact applyDestroy_atomic decoded
        · exact fun _ _ _ => rfl

/-- What an accepted package has done to the row of its bridge. -/
inductive Did (decoded : DecodedPackage) (bridge' : Bridge) : Option Bridge → Prop
  | invited (kind : decoded.kind ≠ kindDestroy) (at_ : bridge'.IsAt decoded.uid decoded.announced) :
    Did decoded bridge' none
  | rotated {bridge : Bridge} (kind : decoded.kind ≠ kindDestroy)
      (at_ : bridge'.IsAt decoded.uid decoded.announced) (live : bridge.destroyed = false)
      (next : decoded.generation.toNat = bridge.generation.toNat + 1)
      (signed : verifyUpdateAuth decoded bridge.publicKey = .ok ()) : Did decoded bridge' (some bridge)
  | destroyed {bridge : Bridge} (kind : decoded.kind = kindDestroy) (live : bridge.destroyed = false)
      (signed : verifyUpdateAuth decoded bridge.publicKey = .ok ()) (eq : bridge' = bridge.destroy) :
      Did decoded bridge' (some bridge)
  | left (kind : decoded.kind = kindDestroy) (dead : bridge'.destroyed) : Did decoded bridge' (some bridge')

theorem applyDecoded_row (h : applyDecoded decoded seed db = (.ok u, db')) :
    (∀ uid, uid ≠ decoded.uid → db'.find? uid = db.find? uid)
      ∧ ∃ bridge', db'.find? decoded.uid = some bridge' ∧ Did decoded bridge' (db.find? decoded.uid) := by
  rcases applyDecoded_ok h with ⟨hkind, hnew, bridge, hat, rfl⟩
    | ⟨hkind, ⟨bridge, bridge', hfound, hlive, hnext, hauth, hat, rfl⟩, hpositive⟩
    | ⟨hkind, bridge, hfound, ⟨hdead, rfl⟩ | ⟨hlive, hauth, rfl⟩⟩
  · have hfree : db.find? bridge.uid = none := hat.uid_eq ▸ hnew
    refine ⟨fun uid hne => ?_, bridge, ?_, hnew ▸ .invited hkind hat⟩
    · rw [Table.find?_add hfree, if_neg (hat.uid_eq ▸ hne)]
    · rw [Table.find?_add hfree, if_pos hat.uid_eq.symm]
  · refine ⟨fun uid hne => Table.find?_put_ne (hat.uid_eq ▸ hne), bridge',
      Table.find?_put_self hfound hat.uid_eq, hfound ▸ .rotated hkind hat hlive ?_ hauth⟩
    rw [hnext, UInt32.lt_iff_toNat_lt, UInt32.toNat_add] at hpositive
    rw [hnext, UInt32.toNat_add]
    have := bridge.generation.toNat_lt
    simp at hpositive ⊢
    omega
  · exact ⟨fun _ _ => rfl, bridge, hfound, hfound ▸ .left hkind hdead⟩
  · have huid : bridge.destroy.uid = decoded.uid := (Table.find?_some hfound).2
    exact ⟨fun uid hne => Table.find?_put_ne (huid ▸ hne), _, Table.find?_put_self hfound huid,
      hfound ▸ .destroyed hkind hlive hauth rfl⟩

variable [KeyPairs]

/-- `import_package`; `seed` is the randomness of the local copy of a secret. -/
def importPackage (seed : Nat) (bytes : Bytes) (recipientSecret : Digest) : Op Rosters Error Bridge := do
  let decoded ← Op.lift (decodePackage bytes recipientSecret)
  Op.require (decoded.recipientPublicKey = KeyPairs.encryptionPublic recipientSecret)
    .invalidBridgePackage
  applyDecoded decoded seed
  let db ← Op.read
  Op.lift (db.get decoded.uid)

/-- What `import_package` applies: a package the secret opens, made out to its public key. -/
def Opens (bytes : Bytes) (recipientSecret : Digest) (decoded : DecodedPackage) : Prop :=
  decodePackage bytes recipientSecret = .ok decoded
    ∧ decoded.recipientPublicKey = KeyPairs.encryptionPublic recipientSecret

theorem importPackage_of_opens (h : Opens bytes secret decoded) (db : Rosters) :
    importPackage seed bytes secret db = (applyDecoded decoded seed >>= fun _ => Op.read >>= fun db =>
      Op.lift (Rosters.get db decoded.uid)) db := by
  unfold importPackage
  rw [Op.lift_bind h.1, Op.require_bind (by simpa using h.2)]

theorem importPackage_unopened (h : ∀ decoded, ¬ Opens bytes secret decoded) (db : Rosters) :
    ∃ e, importPackage seed bytes secret db = (.error e, db) := by
  unfold importPackage
  cases hdecode : decodePackage bytes secret with
  | error e => exact ⟨e, rfl⟩
  | ok decoded =>
    have hkey : decide (decoded.recipientPublicKey = KeyPairs.encryptionPublic secret) = false :=
      decide_eq_false fun hkey => h decoded ⟨hdecode, hkey⟩
    refine ⟨.invalidBridgePackage, ?_⟩
    rw [Op.lift_bind rfl, Op.bind_apply, hkey]
    rfl

/-- **What an import can do**: fail and leave the store, or what its package says. -/
theorem importPackage_cases : (∃ e, importPackage seed bytes secret db = (.error e, db))
    ∨ ∃ decoded bridge' db', Opens bytes secret decoded
      ∧ importPackage seed bytes secret db = (.ok bridge', db')
      ∧ (∀ uid, uid ≠ decoded.uid → db'.find? uid = db.find? uid)
      ∧ db'.find? decoded.uid = some bridge' ∧ Did decoded bridge' (db.find? decoded.uid) := by
  by_cases hopens : ∃ decoded, Opens bytes secret decoded
  · obtain ⟨decoded, hopens⟩ := hopens
    rw [importPackage_of_opens hopens]
    cases happly : (applyDecoded decoded seed db).1 with
    | error e =>
      have hatomic := applyDecoded_atomic decoded seed db e happly
      refine .inl ⟨e, ?_⟩
      rw [Op.bind_apply, Op.run_eq happly, hatomic]
    | ok u =>
      have hrun := Op.run_eq happly
      obtain ⟨hothers, bridge', hfound, hdid⟩ := applyDecoded_row hrun
      refine .inr ⟨decoded, bridge', _, hopens, ?_, hothers, hfound, hdid⟩
      rw [Op.bind_of_ok hrun, Op.read_bind]
      unfold Rosters.get
      rw [hfound]
      rfl
  · exact .inl (importPackage_unopened (not_exists.mp hopens) db)

end Crypto

end KeyQuorum.PrivateBridge
