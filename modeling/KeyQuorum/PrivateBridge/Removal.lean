/-
  **REMOVING A MEMBER** (`private_bridge.rs`, `plan_remove_member` and
  `commit_planned_removal`).

  A member who holds the sealed secret plans the removal: with two members
  left or more the bridge rotates to a new key, salt and generation, with
  fewer it is destroyed.  The plan makes one package for every store; the
  commit writes this store.  Nothing but the generation this store is at
  when it commits ties the two together.
-/
import KeyQuorum.PrivateBridge.Rosters

namespace KeyQuorum.PrivateBridge

open List Foundation Letter

/-! ## §1. Rosters of a plan. -/

def remainingMembers (parties : List Party) (removedLabel : String) : Members :=
  parties.foldl (fun members party =>
    match party.standing with
    | .member signing =>
      if party.label = removedLabel then members
      else members.insert party.label ⟨party.encryption, signing⟩
    | .supervisor => members) SortedMap.empty

/-- `supervisor_pubs_for`: the parents of the members, as far as they were parties before. -/
def supervisorPubsFor (members : Members) (previous : List Party) : Supervisors :=
  let needed := members.keys.filterMap fun label =>
    (parentNodeLabel label).filter fun parent => !members.contains parent
  previous.foldl (fun supervisors party =>
    if needed.contains party.label then supervisors.insert party.label party.encryption
    else supervisors) SortedMap.empty

/-! ## §2. The sealed secret. -/

def sealedBridgeKeyLen : Nat := 16 + 32 + 48

section Crypto

variable [SealedBoxes]

def sealBridgeSecret (recipient : Digest) (wrapSalt : Id16) (secret : Digest) (seed : Nat) :
    Except Error Bytes :=
  if SealedBoxes.weakKey recipient then .error .invalidPublicKey
  else .ok (SealedBoxes.sealWith recipient seed (wrapSalt.bytes ++ secret.bytes))

def unsealBridgeSecret (sealed : Bytes) (wrapSalt : Id16) (encryptionSk : Digest) :
    Except Error Digest :=
  if sealed.length ≠ sealedBridgeKeyLen then .error .integrityCheckFailed
  else do
    let plain ← okOr (SealedBoxes.unsealWith encryptionSk sealed) .integrityCheckFailed
    if h : plain.length = 16 + 32 ∧ plain.take 16 = wrapSalt.bytes then
      .ok ⟨plain.drop 16, by rw [length_drop, h.1]⟩
    else .error .integrityCheckFailed

def Bridge.unsealLocalSecret (bridge : Bridge) (localLabel : String) (encryptionSk : Digest) :
    Except Error Digest := do
  let held ← okOr (bridge.sealedKeys.find? localLabel) .database
  unsealBridgeSecret held.wrapped held.wrapSalt encryptionSk

def Bridge.sealLocalIfMember (bridge : Bridge) (localLabel : String) (members : Members)
    (secret : Digest) (wrapSalt : Id16) (seed : Nat) : Except Error Bridge :=
  match members.get? localLabel with
  | none => .ok bridge
  | some keys => do
      let wrapped ← sealBridgeSecret keys.encryption wrapSalt secret seed
      bridge.insertSealedKey ⟨localLabel, wrapSalt, wrapped⟩

/-! ## §3. Packages. -/

variable [Crypto]

/-- `DeliveryPackage`, with the fields its bytes encode. -/
structure DeliveryPackage where
  fields : PackageFields
  bytes : Bytes
  encoded : ∃ seed, encodePackage fields seed = .ok bytes

def deliver (fields : PackageFields) (seed : Nat) : Except Error DeliveryPackage :=
  match h : encodePackage fields seed with
  | .ok bytes => .ok ⟨fields, bytes, seed, h⟩
  | .error e => .error e

variable {generation : Generation} {seed : Nat} {uid localLabel : String}

theorem deliver_ok (h : deliver fields seed = .ok package) : package.fields = fields := by
  unfold deliver at h
  split at h
  next =>
    cases h
    rfl
  next => cases h

/-- What a plan draws at random: the new salt and secret, and for every package the salt of its secret
and the randomness of its box. -/
structure Draws where
  salt : Id16
  secret : Digest
  wrapSalt : String → Id16
  seed : String → Nat

/-- The fields `packages_for_roster` and `destroy_package_for` share. -/
def packageFields (kind : UInt8) (uid bridgeLabel removedLabel : String) (generation : Generation)
    (oldSigning : Option Digest) (recipientLabel : String) (recipientPublicKey : Digest)
    (role : PartyRole) (secret : Option (Id16 × Digest)) : PackageFields :=
  { kind, uid, generation := generation.number, bridgeLabel
    publicKey := generation.publicKey, salt := generation.salt, recipientLabel
    recipientPublicKey, role, members := generation.members
    supervisors := generation.supervisors, removedLabel, secret
    oldSigning }

/-- `packages_for_roster`: each member gets the secret, each supervisor the roster. -/
def packagesForRoster (draws : Draws) (memberKind supervisorKind : UInt8)
    (uid bridgeLabel removedLabel : String) (generation : Generation) (secret : Digest)
    (oldSigning : Option Digest) : Except Error (List DeliveryPackage) := do
  let toMembers ← generation.members.entries.mapM fun entry =>
    deliver (packageFields memberKind uid bridgeLabel removedLabel generation oldSigning entry.1
      entry.2.encryption .member (some (draws.wrapSalt entry.1, secret))) (draws.seed entry.1)
  let toSupervisors ← generation.supervisors.entries.mapM fun entry =>
    deliver (packageFields supervisorKind uid bridgeLabel removedLabel generation oldSigning entry.1
      entry.2 .supervisor none) (draws.seed entry.1)
  .ok (toMembers ++ toSupervisors)

/-- `destroy_package_for`, for the parties given. -/
def destroyPackages (draws : Draws) (uid bridgeLabel removedLabel : String) (generation : Generation)
    (oldSigning : Digest) (parties : List Party) : Except Error (List DeliveryPackage) :=
  parties.mapM fun party =>
    deliver (packageFields kindDestroy uid bridgeLabel removedLabel generation (some oldSigning)
      party.label party.encryption party.role none) (draws.seed party.label)

/-! ## §4. The plan. -/

inductive PlannedRemovalKind where
  | destroy (uid : String) (expectedGeneration : UInt32)
  | rotate (uid localLabel : String) (expectedGeneration : UInt32) (generation : Generation)
      (newSecret : Digest)

/-- `PlannedRemoval`, with its `RemoveMemberOutcome`. -/
structure PlannedRemoval where
  uid : String
  destroyed : Bool
  remainingMembers : List String
  packages : List DeliveryPackage
  kind : PlannedRemovalKind

variable [KeyPairs]

/-- The checks of `plan_remove_member`, up to the secret of the generation that ends. -/
def planSecret (bridge : Bridge) (removedLabel localLabel : String) (encryptionSk : Digest) :
    Except Error Digest :=
  if bridge.destroyed then .error .bridgeDestroyed
  else if localLabel = removedLabel then .error .invalidBridge
  else do
    let localParty ← okOr (bridge.summary.find? fun party => party.label = localLabel
      && party.role = .member && (bridge.sealedKeys.find? party.label).isSome) .sealedKeyNotHeld
    if KeyPairs.encryptionPublic encryptionSk ≠ localParty.encryption then .error .integrityCheckFailed
    else if !bridge.summary.any fun party => party.label = removedLabel && party.role = .member then
      .error .notBridgeMember
    else bridge.unsealLocalSecret localLabel encryptionSk

def planRemoveMember (draws : Draws) (db : Rosters) (uid removedLabel localLabel : String)
    (encryptionSk : Digest) : Except Error PlannedRemoval := do
  let bridge ← db.get uid
  let secret ← planSecret bridge removedLabel localLabel encryptionSk
  let members := remainingMembers bridge.summary removedLabel
  let supervisors := supervisorPubsFor members bridge.summary
  let bridgeLabel := bridge.label.getD ""
  -- destroy notices speak of the generation their recipients still hold, with the new roster
  let ending : Generation := ⟨bridge.generation, bridge.publicKey, bridge.salt, members, supervisors⟩
  if members.entries.length < 2 then do
    let packages ← destroyPackages draws uid bridgeLabel removedLabel ending secret bridge.summary
    .ok ⟨uid, true, members.keys, packages, .destroy uid bridge.generation⟩
  else do
    let next : Generation := ⟨bridge.generation + 1, KeyPairs.signingPublic draws.secret, draws.salt,
      members, supervisors⟩
    let toRoster ← packagesForRoster draws kindRotate kindSupervisor uid bridgeLabel removedLabel next
      draws.secret (some secret)
    let toDropped ← destroyPackages draws uid bridgeLabel removedLabel ending secret
      (bridge.summary.filter fun party =>
        !(members.contains party.label || supervisors.contains party.label))
    .ok ⟨uid, false, members.keys, toRoster ++ toDropped,
      .rotate uid localLabel bridge.generation next draws.secret⟩

/-! ## §5. The commit. -/

/-- `persist_rotation` on the row of the bridge. -/
def Bridge.persistRotation (bridge : Bridge) (localLabel : String) (expectedGeneration : UInt32)
    (generation : Generation) (newSecret : Digest) (wrapSalt : Id16) (seed : Nat) :
    Except Error Bridge :=
  if bridge.generation ≠ expectedGeneration || bridge.destroyed then .error .bridgeGenerationMismatch
  else do
    checkGeneration generation.number
    let rotated ← Bridge.replaceRoster { bridge with
        generation := generation.number, publicKey := generation.publicKey, salt := generation.salt }
      generation.members generation.supervisors (some localLabel)
    rotated.sealLocalIfMember localLabel generation.members newSecret wrapSalt seed

def Bridge.persistDestruction (bridge : Bridge) (expectedGeneration : UInt32) : Except Error Bridge :=
  if bridge.generation ≠ expectedGeneration || bridge.destroyed then .error .bridgeGenerationMismatch
  else .ok { bridge with destroyed := true, sealedKeys := Table.empty }

/-- `commit_planned_removal`; the salt and seed are drawn for the local copy of the secret. -/
def commitPlannedRemoval (planned : PlannedRemoval) (wrapSalt : Id16) (seed : Nat) :
    Op Rosters Error Unit :=
  match planned.kind with
  | .destroy uid expectedGeneration =>
    alter uid .bridgeGenerationMismatch fun bridge => bridge.persistDestruction expectedGeneration
  | .rotate uid localLabel expectedGeneration generation newSecret =>
    alter uid .bridgeGenerationMismatch fun bridge =>
      bridge.persistRotation localLabel expectedGeneration generation newSecret wrapSalt seed

/-! ## §6. What a plan says and what a commit does. -/

/-- The generation a package announces; a destroy notice announces none. -/
def DeliveryPackage.announced (package : DeliveryPackage) : Generation :=
  ⟨package.fields.generation, package.fields.publicKey, package.fields.salt, package.fields.members,
    package.fields.supervisors⟩

def PlannedRemoval.RotatesTo (planned : PlannedRemoval) (uid : String) (generation : Generation) : Prop :=
  ∃ localLabel expected secret, planned.kind = .rotate uid localLabel expected generation secret

omit [KeyPairs] in
theorem destroyPackages_fields
    (h : destroyPackages draws uid bridgeLabel removedLabel generation oldSigning parties
      = .ok packages) :
    packages.map DeliveryPackage.fields = parties.map fun party =>
      packageFields kindDestroy uid bridgeLabel removedLabel generation (some oldSigning) party.label
        party.encryption party.role none :=
  mapM_ok_map (fun _ _ => deliver_ok) h

omit [KeyPairs] in
theorem packagesForRoster_fields
    (h : packagesForRoster draws memberKind supervisorKind uid bridgeLabel removedLabel generation secret
      oldSigning = .ok packages) :
    packages.map DeliveryPackage.fields
      = (generation.members.entries.map fun entry =>
          packageFields memberKind uid bridgeLabel removedLabel generation oldSigning entry.1
            entry.2.encryption .member (some (draws.wrapSalt entry.1, secret)))
        ++ generation.supervisors.entries.map fun entry =>
          packageFields supervisorKind uid bridgeLabel removedLabel generation oldSigning entry.1 entry.2
            .supervisor none := by
  obtain ⟨toMembers, hmembers, h⟩ := try_ok h
  obtain ⟨toSupervisors, hsupervisors, h⟩ := try_ok h
  cases h
  rw [map_append, mapM_ok_map (fun _ _ => deliver_ok) hmembers,
    mapM_ok_map (fun _ _ => deliver_ok) hsupervisors]

/-- **What a plan is made from and what it says**: a plan that rotates the bridge makes the
next generation and leaves two members at least, and a package that is no destroy notice announces that
generation. -/
theorem planRemoveMember_ok
    (h : planRemoveMember draws db uid removedLabel localLabel encryptionSk = .ok planned) :
    ∃ bridge, db.find? uid = some bridge
      ∧ (∀ uid' generation, planned.RotatesTo uid' generation → uid' = uid
          ∧ generation.number = bridge.generation + 1
          ∧ 2 ≤ (remainingMembers bridge.summary removedLabel).entries.length)
      ∧ ∀ package ∈ planned.packages, package.fields.uid = uid
        ∧ (package.fields.kind ≠ kindDestroy → planned.RotatesTo uid package.announced) := by
  obtain ⟨bridge, hbridge, h⟩ := try_ok h
  have hfound : db.find? uid = some bridge := okOr_ok hbridge
  obtain ⟨secret, -, h⟩ := try_ok h
  refine ⟨bridge, hfound, ?_⟩
  dsimp only at h
  split at h
  next =>
    obtain ⟨packages, hpackages, h⟩ := try_ok h
    cases h
    refine ⟨?_, fun package hmem => ?_⟩
    · rintro uid' generation ⟨_, _, _, hkind⟩
      cases hkind
    · obtain ⟨party, -, hfields⟩ := mem_map.mp (destroyPackages_fields hpackages ▸ mem_map_of_mem hmem)
      rw [← hfields]
      exact ⟨rfl, fun hnot => absurd rfl hnot⟩
  next hmany =>
    obtain ⟨toRoster, hroster, h⟩ := try_ok h
    obtain ⟨toDropped, hdropped, h⟩ := try_ok h
    cases h
    refine ⟨?_, fun package hmem => ?_⟩
    · rintro uid' generation ⟨_, _, _, hkind⟩
      obtain ⟨rfl, -, -, rfl, -⟩ := PlannedRemovalKind.rotate.inj hkind
      exact ⟨rfl, rfl, Nat.not_lt.mp hmany⟩
    · rcases mem_append.mp hmem with hmem | hmem
      · unfold DeliveryPackage.announced
        rcases mem_append.mp (packagesForRoster_fields hroster ▸ mem_map_of_mem hmem) with hmem | hmem
        all_goals
          obtain ⟨entry, -, hfields⟩ := mem_map.mp hmem
          rw [← hfields]
          exact ⟨rfl, fun _ => ⟨_, _, _, rfl⟩⟩
      · obtain ⟨party, -, hfields⟩ := mem_map.mp (destroyPackages_fields hdropped ▸ mem_map_of_mem hmem)
        rw [← hfields]
        exact ⟨rfl, fun hnot => absurd rfl hnot⟩

omit [Crypto] [KeyPairs] in
theorem Bridge.persistRotation_ok {bridge : Bridge}
    (h : bridge.persistRotation localLabel expected generation newSecret wrapSalt seed = .ok bridge') :
    bridge'.IsAt bridge.uid generation := by
  unfold persistRotation at h
  obtain ⟨hguard, h⟩ := else_ok h
  obtain ⟨-, -, h⟩ := try_ok h
  obtain ⟨rotated, hrotated, h⟩ := try_ok h
  have hlive : bridge.destroyed = false := by
    cases hdestroyed : bridge.destroyed with
    | false => rfl
    | true => exact absurd (by rw [hdestroyed]; simp) hguard
  have hat : rotated.IsAt bridge.uid generation :=
    Bridge.replaceRoster_isAt hrotated rfl hlive rfl rfl rfl
  unfold Bridge.sealLocalIfMember at h
  split at h
  next =>
    cases h
    exact hat
  next =>
    obtain ⟨wrapped, -, h⟩ := try_ok h
    exact hat.insertSealedKey h

end Crypto

end KeyQuorum.PrivateBridge
