/-
  **A DESTROY NOTICE AND THE STORES IT WAS NOT ISSUED FOR**
  (`private_bridge.rs`, `apply_destroy`).

  A destroy notice is signed over the label of the store it was issued for.
  Its envelope is an anonymous seal, so whoever has read a notice can seal
  the same letter to another store.  An invitation or a rotation would be
  refused there, because the recipient is checked against the roster.  A
  destroy notice is not checked, so the other store destroys its bridge as
  long as its copy still has the key the notice was signed with.
-/
import KeyQuorum.PrivateBridge.Import

namespace KeyQuorum.PrivateBridge

open Foundation Letter

def live (db : Rosters) (uid : String) : Bool := (db.find? uid).any fun bridge => !bridge.destroyed

def Bridge.isLocal (bridge : Bridge) (label : String) : Bool :=
  bridge.parties.rows.any fun party => party.label = label && party.isLocal

theorem live_of_find (h : db.find? uid = some bridge) :
    live db uid = !bridge.destroyed := by
  unfold live
  rw [h]
  rfl

section Crypto

variable [Crypto] [KeyPairs] [SealedBoxes]

/-- The bytes open to a destroy notice that verifies under the key a store has of the bridge. -/
def Binds (bytes : Bytes) (secret : Digest) (bridge : Bridge) : Prop :=
  ∃ decoded, Opens bytes secret decoded ∧ decoded.kind = kindDestroy
    ∧ verifyUpdateAuth decoded bridge.publicKey = .ok ()

/-- A letter of a plan speaks of the bridge it was planned for, in whatever envelope it comes. -/
theorem Opens.uid_eq
    (hplan : planRemoveMember draws planner uid removedLabel localLabel encryptionSk = .ok planned)
    (hpackage : package ∈ planned.packages) (hpayload : package.fields.payload = .ok payload)
    (hsealed : openWith bytes secret = .ok (kind, key, payload)) (hopens : Opens bytes secret decoded) :
    decoded.uid = uid := by
  have hdecode : decodePayload kind key payload = .ok decoded := by
    have h := hopens.1
    unfold decodePackage at h
    rwa [hsealed] at h
  obtain ⟨authSig, -, rfl⟩ := decodePayload_payload hpayload hdecode
  obtain ⟨_, -, -, hpackages⟩ := planRemoveMember_ok hplan
  exact (hpackages package hpackage).1

section

variable {db : Rosters} {bridge : Bridge} (huid : ∀ decoded, Opens bytes secret decoded → decoded.uid = uid)
  (hfound : db.find? uid = some bridge) (hlive : bridge.destroyed = false)

include huid hfound hlive

theorem Binds.destroys (hbinds : Binds bytes secret bridge) :
    live (importPackage seed bytes secret db).2 uid = false := by
  obtain ⟨decoded, hopens, hkind, hauth⟩ := hbinds
  have hget : db.find? decoded.uid = some bridge := by rw [huid decoded hopens, hfound]
  have happly : applyDecoded decoded seed db = (.ok (), db.put bridge.destroy) := by
    unfold applyDecoded
    rw [hkind, if_neg (by decide), if_neg (by rintro ⟨h, -⟩; exact absurd h (by decide)),
      if_neg (by decide), if_pos rfl]
    exact applyDestroy_of_auth hget hlive hauth
  rw [importPackage_of_opens hopens, Op.bind_of_ok happly]
  have hput : (db.put bridge.destroy).find? uid = some bridge.destroy :=
    Table.find?_put_self hfound (Table.find?_some hfound).2
  exact live_of_find hput

theorem live_of_not_binds (hnot : ¬ Binds bytes secret bridge) :
    live (importPackage seed bytes secret db).2 uid := by
  rcases importPackage_cases with ⟨e, hsame⟩ | ⟨decoded, bridge', db', hopens, hrun, -, hrow, hdid⟩
  · rw [hsame, live_of_find hfound, hlive]
    rfl
  · obtain rfl := huid decoded hopens
    rw [hrun, live_of_find hrow]
    rw [hfound] at hdid
    cases hdid with
    | rotated _ hat =>
      rw [hat.live]
      rfl
    | destroyed hkind _ hauth => exact absurd ⟨decoded, hopens, hkind, hauth⟩ hnot
    | left _ hdead => cases hlive.symm.trans hdead

end

/-- **A letter of a removal, sealed to whomever, spares the stores it was not issued for iff it does not
bind them**: for every plan, every package of it, every envelope of its letter and every store with the
bridge live. -/
theorem importPackage_spares_iff {draws : Draws} {planner : Rosters}
    {uid removedLabel localLabel : String} {encryptionSk : Digest} {planned : PlannedRemoval}
    (hplan : planRemoveMember draws planner uid removedLabel localLabel encryptionSk = .ok planned)
    {package : DeliveryPackage} (hpackage : package ∈ planned.packages) {payload : Bytes}
    (hpayload : package.fields.payload = .ok payload) {bytes : Bytes} {secret key : Digest} {kind : UInt8}
    (hsealed : openWith bytes secret = .ok (kind, key, payload)) {db : Rosters} {bridge : Bridge}
    (hfound : db.find? uid = some bridge) (hlive : bridge.destroyed = false) (seed : Nat) :
    (bridge.isLocal package.fields.recipientLabel = false →
        live (importPackage seed bytes secret db).2 uid = true)
      ↔ (bridge.isLocal package.fields.recipientLabel = true ∨ ¬ Binds bytes secret bridge) := by
  have huid : ∀ decoded, Opens bytes secret decoded → decoded.uid = uid := fun decoded hopens =>
    hopens.uid_eq hplan hpackage hpayload hsealed
  constructor
  · intro hspares
    cases hlocal : bridge.isLocal package.fields.recipientLabel with
    | true => exact .inl rfl
    | false =>
      refine .inr fun hbinds => ?_
      have hdead : live (importPackage seed bytes secret db).2 uid = false :=
        Binds.destroys huid hfound hlive hbinds
      exact absurd ((hspares hlocal).symm.trans hdead) (by decide)
  · rintro (hlocal | hnot) hforeign
    · exact absurd (hlocal.symm.trans hforeign) (by decide)
    · exact live_of_not_binds huid hfound hlive hnot

end Crypto

namespace Sample

attribute [local instance] Crypto.toy KeyPairs.toy SealedBoxes.toy

def key (n : Nat) : Digest := .ofNat 32 n

def founders : Members :=
  SortedMap.ofEntries [("A", ⟨key 11, key 21⟩), ("B", ⟨key 12, key 22⟩), ("C", ⟨key 13, key 23⟩)]

def invitation (label : String) (n : Nat) : DecodedPackage :=
  { kind := kindInvite, uid := "u", generation := 1, bridgeLabel := "", publicKey := key 9
    salt := .ofNat 16 3, recipientLabel := label, recipientPublicKey := key n, role := .member
    members := founders, supervisors := SortedMap.empty, removedLabel := ""
    secret := some (.ofNat 16 4, key 9), authSig := none }

def founded (label : String) (n : Nat) : Rosters := (applyDecoded (invitation label n) 0 Table.empty).2

def draws (n : Nat) : Draws :=
  ⟨.ofNat 16 n, key n, fun _ => .ofNat 16 n, fun _ => n⟩

/-- `A` removes `C`. -/
def removal : Except Error PlannedRemoval := planRemoveMember (draws 50) (founded "A" 11) "u" "C" "A" (key 11)

set_option synthInstance.maxSize 300 in
/-- The notice for `C`, sealed to `B`, spares the bridge of `B` iff it does not bind it. -/
theorem resealed_notice_spares_iff :
    ∃ planned, removal = .ok planned ∧ ∃ package ∈ planned.packages, package.fields.recipientLabel = "C"
      ∧ ∃ payload, package.fields.payload = .ok payload
      ∧ ∃ bytes, sealTo kindDestroy (key 12) 0 payload = .ok bytes
      ∧ ∃ bridge : Bridge, (founded "B" 12).find? "u" = some bridge ∧ bridge.isLocal "C" = false
      ∧ (live (importPackage 0 bytes (key 12) (founded "B" 12)).2 "u" = true
        ↔ ¬ Binds bytes (key 12) bridge) := by
  obtain ⟨planned, hplan, package, hpackage, hlabel, payload, hpayload, bytes, hbytes, hopened⟩ :
      ∃ planned, removal = .ok planned ∧ ∃ package ∈ planned.packages,
        package.fields.recipientLabel = "C"
        ∧ ∃ payload, package.fields.payload = .ok payload
        ∧ ∃ bytes, sealTo kindDestroy (key 12) 0 payload = .ok bytes
        ∧ openWith bytes (key 12) = .ok (kindDestroy, key 12, payload) := by
    decide +kernel
  obtain ⟨bridge, hbridge, hlive, hforeign⟩ : ∃ bridge, Rosters.get (founded "B" 12) "u" = .ok bridge
      ∧ bridge.destroyed = false ∧ bridge.isLocal "C" = false := by
    decide +kernel
  have hfound : (founded "B" 12).find? "u" = some bridge := okOr_ok hbridge
  refine ⟨planned, hplan, package, hpackage, hlabel, payload, hpayload, bytes, hbytes, bridge, hfound,
    hforeign, ?_⟩
  have hiff := importPackage_spares_iff hplan hpackage hpayload hopened hfound hlive 0
  rw [hlabel, hforeign] at hiff
  simpa using hiff

/-- **The notice for `C`, sealed to `B`, destroys the bridge of `B`.** -/
theorem resealed_notice_destroys :
    ∃ planned, removal = .ok planned ∧ ∃ package ∈ planned.packages,
      package.fields.kind = kindDestroy ∧ package.fields.recipientLabel = "C"
      ∧ ∃ payload, package.fields.payload = .ok payload
      ∧ ∃ bytes, sealTo kindDestroy (key 12) 0 payload = .ok bytes
      ∧ ∃ bridge, Rosters.get (founded "B" 12) "u" = .ok bridge
      ∧ bridge.destroyed = false ∧ bridge.isLocal "C" = false
      ∧ live (importPackage 0 bytes (key 12) (founded "B" 12)).2 "u" = false := by
  decide +kernel

end Sample

end KeyQuorum.PrivateBridge
