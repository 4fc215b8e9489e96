/-
  **THE LIFE OF A BRIDGE IN ONE STORE** (`private_bridge.rs`,
  `import_package` over any sequence of packages).

  Whatever arrives, in any order and any number of times: a bridge is taken
  up once, every rotation is the next generation and signed with the key
  the store had, and a destroyed bridge stays as it is, without its sealed
  keys.
-/
import KeyQuorum.PrivateBridge.Notice
import KeyQuorum.Foundation.Runs

namespace KeyQuorum.PrivateBridge

open Foundation Letter

section Crypto

variable [Crypto] [KeyPairs] [SealedBoxes]

/-- Bytes that arrive, the secret they are opened with, and the randomness of a local copy. -/
structure Arrival where
  bytes : Bytes
  secret : Digest
  seed : Nat

def Arrival.exec (db : Rosters) (arrival : Arrival) : Rosters :=
  (importPackage arrival.seed arrival.bytes arrival.secret db).2

/-- Accepted for a bridge the store has, and no destroy notice: a rotation. -/
def Arrival.rotates (arrival : Arrival) (uid : String) (db : Rosters) : Bool :=
  match decodePackage arrival.bytes arrival.secret,
      (importPackage arrival.seed arrival.bytes arrival.secret db).1 with
  | .ok decoded, .ok _ => decoded.uid = uid && decoded.kind ≠ kindDestroy && (db.find? uid).isSome
  | _, _ => false

/-- The rotations of a bridge that are accepted in a run. -/
def rotations (uid : String) : Rosters → List Arrival → Nat
  | _, [] => 0
  | db, arrival :: rest =>
    (if arrival.rotates uid db then 1 else 0) + rotations uid (arrival.exec db) rest

structure Arrival.Rotated (arrival : Arrival) (db : Rosters) (uid : String) (bridge bridge' : Bridge) :
    Prop where
  before : db.find? uid = some bridge
  after : (arrival.exec db).find? uid = some bridge'
  live : bridge.destroyed = false ∧ bridge'.destroyed = false
  next : bridge'.generation.toNat = bridge.generation.toNat + 1
  signed : ∃ decoded, Opens arrival.bytes arrival.secret decoded
    ∧ verifyUpdateAuth decoded bridge.publicKey = .ok ()

/-- **What an arrival does to the row of a bridge.** -/
theorem Arrival.exec_row (arrival : Arrival) (uid : String) (db : Rosters) :
    (arrival.rotates uid db ∧ ∃ bridge bridge', arrival.Rotated db uid bridge bridge')
      ∨ (arrival.rotates uid db = false ∧ ((arrival.exec db).find? uid = db.find? uid
        ∨ (db.find? uid = none
          ∧ ∀ bridge, (arrival.exec db).find? uid = some bridge → bridge.destroyed = false)
        ∨ ∃ bridge, db.find? uid = some bridge ∧ bridge.destroyed = false
          ∧ (arrival.exec db).find? uid = some bridge.destroy)) := by
  unfold Arrival.rotates
  rcases importPackage_cases with ⟨e, herror⟩ | ⟨decoded, bridge', db', hopens, hrun, hothers, hrow, hdid⟩
  · refine .inr ⟨?_, .inl (congrArg (·.2.find? uid) herror)⟩
    rw [herror]
    split <;> simp_all
  · have hexec : arrival.exec db = db' := congrArg Prod.snd hrun
    rw [hopens.1, hrun, hexec]
    by_cases huid : uid = decoded.uid
    · subst huid
      generalize hold : db.find? decoded.uid = row at hdid
      cases hdid with
      | invited hkind hat =>
        refine .inr ⟨by simp, .inr (.inl ⟨rfl, fun bridge h => ?_⟩)⟩
        obtain rfl := Option.mem_unique h hrow
        exact hat.live
      | rotated hkind hat hlive hnext hauth =>
        refine .inl ⟨by simp [hkind], _, bridge', hold, hexec ▸ hrow, ⟨hlive, hat.live⟩, ?_,
          decoded, hopens, hauth⟩
        exact (congrArg UInt32.toNat hat.number_eq).trans hnext
      | destroyed hkind hlive _ heq => exact .inr ⟨by simp [hkind], .inr (.inr ⟨_, rfl, hlive, heq ▸ hrow⟩)⟩
      | left hkind => exact .inr ⟨by simp [hkind], .inl hrow⟩
    · exact .inr ⟨by simp [Ne.symm huid], .inl (hothers uid huid)⟩

/-- **The life of a bridge**: over any arrivals its generation rises by one for each accepted rotation,
a destroyed bridge stays as it is, one that was destroyed on the way keeps no sealed key, and a rotation
is signed with the key the store has. -/
theorem imports_life (db : Rosters) (arrivals : List Arrival) (uid : String) :
    (∀ bridge, db.find? uid = some bridge →
      ∃ bridge', (Runs.run Arrival.exec db arrivals).find? uid = some bridge'
        ∧ bridge'.generation.toNat = bridge.generation.toNat + rotations uid db arrivals
        ∧ (bridge.destroyed → bridge' = bridge))
    ∧ (∀ bridge, (Runs.run Arrival.exec db arrivals).find? uid = some bridge → bridge.destroyed →
      db.find? uid = some bridge ∨ bridge.sealedKeys = Table.empty)
    ∧ ∀ arrival : Arrival, arrival.rotates uid (Runs.run Arrival.exec db arrivals) →
      ∃ bridge bridge', arrival.Rotated (Runs.run Arrival.exec db arrivals) uid bridge bridge' := by
  refine ⟨fun bridge hrow => ?_, fun bridge hrow hdead => ?_, fun arrival hrotates => ?_⟩
  · induction arrivals generalizing db bridge with
    | nil => exact ⟨bridge, hrow, rfl, fun _ => rfl⟩
    | cons arrival rest ih =>
      unfold rotations
      rcases arrival.exec_row uid db with ⟨hrotates, old, new, h⟩ | ⟨hnot, hcases⟩
      · obtain rfl := Option.mem_unique hrow h.before
        obtain ⟨last, hlast, hgeneration, -⟩ := ih _ _ h.after
        refine ⟨last, hlast, ?_, fun hdead => absurd (h.live.1.symm.trans hdead) (by decide)⟩
        rw [hgeneration, h.next, if_pos hrotates, Nat.add_assoc]
      · rw [hnot, if_neg (by decide), Nat.zero_add]
        rcases hcases with hsame | ⟨hnone, -⟩ | ⟨old, hold, hlive, hnew⟩
        · exact ih _ _ (hsame.trans hrow)
        · cases hnone.symm.trans hrow
        · obtain rfl := Option.mem_unique hrow hold
          obtain ⟨last, hlast, hgeneration, -⟩ := ih _ _ hnew
          exact ⟨last, hlast, hgeneration, fun hdead => absurd (hlive.symm.trans hdead) (by decide)⟩
  · induction arrivals generalizing db with
    | nil => exact .inl hrow
    | cons arrival rest ih =>
      refine (ih _ hrow).elim (fun hafter => ?_) .inr
      rcases arrival.exec_row uid db with ⟨-, old, new, h⟩ | ⟨-, hsame | ⟨-, hlive⟩ | ⟨old, -, -, hnew⟩⟩
      · obtain rfl := Option.mem_unique hafter h.after
        cases h.live.2.symm.trans hdead
      · exact .inl (hsame.symm.trans hafter)
      · cases (hlive _ hafter).symm.trans hdead
      · obtain rfl := Option.mem_unique hafter hnew
        exact .inr rfl
  · exact (arrival.exec_row uid _).elim (fun h => h.2) fun h => absurd (h.1.symm.trans hrotates) (by decide)

end Crypto

namespace Sample

attribute [local instance] Crypto.toy KeyPairs.toy SealedBoxes.toy

/-- `B` takes the rotation in that `A` sends on the removal of `C`. -/
theorem removal_rotates_once :
    ∃ planned, removal = .ok planned ∧ ∃ package ∈ planned.packages, ∃ bridge bridge' : Bridge,
      (founded "B" 12).find? "u" = some bridge
      ∧ (Runs.run Arrival.exec (founded "B" 12) [⟨package.bytes, key 12, 0⟩]).find? "u" = some bridge'
      ∧ bridge'.generation.toNat = bridge.generation.toNat + 1 := by
  obtain ⟨planned, hplan, package, hpackage, hone, hsome⟩ :
      ∃ planned, removal = .ok planned ∧ ∃ package ∈ planned.packages,
        rotations "u" (founded "B" 12) [⟨package.bytes, key 12, 0⟩] = 1
        ∧ ((founded "B" 12).find? "u").isSome := by
    decide +kernel
  obtain ⟨bridge, hbridge⟩ := Option.isSome_iff_exists.mp hsome
  obtain ⟨bridge', hbridge', hgeneration, -⟩ :=
    (imports_life (founded "B" 12) [⟨package.bytes, key 12, 0⟩] "u").1 bridge hbridge
  exact ⟨planned, hplan, package, hpackage, bridge, bridge', hbridge, hbridge', hone ▸ hgeneration⟩

end Sample

end KeyQuorum.PrivateBridge
