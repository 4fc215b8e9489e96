/-
  **RUNS OF THE KEY DESK.**

  Any order of the host's and the licensing flow's calls, each one
  transaction.  A rotation through the licensing flow carries the link over;
  the host's own rotations (`keys rotate`) mint a replacement that no licence
  knows of.
-/
import KeyQuorum.Foundation.Runs
import KeyQuorum.Relay.Voiding

namespace KeyQuorum.Relay.KeyDesk

open List Foundation

/-! ## §1. What a flow keeps. -/

structure Kept (s s' : KeyDesk) : Prop where
  sound : s'.Sound
  voided : ∀ l, s.Voided l → s'.Voided l

variable {s s' s'' : KeyDesk} {env : RelayEnv} {id k l : Nat}

theorem Kept.refl (h : s.Sound) : Kept s s := ⟨h, fun _ hl => hl⟩

theorem Kept.trans (h : Kept s s') (h' : Kept s' s'') : Kept s s'' :=
  ⟨h'.sound, fun l hl => h'.voided l (h.voided l hl)⟩

theorem Sound.kept (h : s.Sound) (hquiet : Quiet s s') : Kept s s' :=
  ⟨h.quiet hquiet, fun l hl => (hquiet.voided l).mpr hl⟩

theorem Sound.kept_voids (h : s.Sound) (hvoids : Voids s s' l) : Kept s s' :=
  ⟨h.voids hvoids, fun m hm => (hvoids.voided m).mpr (.inl hm)⟩

theorem Sound.kept_rotates (h : s.Sound) (hrotates : Rotates s s' new id)
    (hfree : s.links.find? id = none) : Kept s s' :=
  ⟨h.rotates hrotates hfree, fun l hl => (hrotates.voided l).mpr hl⟩

section Licences

variable [CharTable] {customer : Customer} {new : NewLicence}

theorem createCustomer_ok {new : NewCustomer}
    (h : s.createCustomer new = .ok (customer, s')) : Quiet s s' := by
  obtain ⟨-, h⟩ := else_ok h
  obtain ⟨-, h⟩ := else_ok h
  cases h
  exact ⟨.of_eq rfl rfl, fun _ => .rfl, fun _ _ => .rfl⟩

variable {customerId : Nat} {licence : Licence}

theorem createLicenceRow_ok
    (h : s.createLicenceRow env customerId new = .ok (licence, s')) : Quiet s s' := by
  obtain ⟨terms, -, h⟩ := try_ok h
  obtain ⟨expiresAt, -, h⟩ := try_ok h
  obtain ⟨⟨⟩, -, h⟩ := try_ok h
  cases h
  refine quiet_addLicence ?_ rfl
  rw [Table.find?_eq_none]
  intro hmem
  exact absurd (lt_freshId hmem) (Nat.lt_irrefl _)

theorem renewRow_ok (h : s.renewRow env id terms expiresAt = .ok (licence, s')) : Quiet s s' := by
  obtain ⟨current, hcurrent, h⟩ := try_ok h
  obtain ⟨-, h⟩ := else_ok h
  obtain ⟨newTerms, -, h⟩ := try_ok h
  obtain ⟨newEnd, -, h⟩ := try_ok h
  obtain ⟨-, h⟩ := else_ok h
  cases h
  obtain ⟨hfound, rfl⟩ := licence_ok hcurrent
  exact quiet_putLicence hfound rfl

theorem issueCustomer_ok {ref : CustomerRef}
    (h : s.issueCustomer ref = .ok (customer, s')) : Quiet s s' := by
  unfold issueCustomer at h
  split at h
  next => exact createCustomer_ok h
  next =>
    obtain ⟨found, -, h⟩ := try_ok h
    cases h
    exact .refl s

theorem issueLicence_ok (h : s.issueLicence env customerId ref = .ok (licence, s')) : Quiet s s' := by
  unfold issueLicence at h
  split at h
  next => exact createLicenceRow_ok h
  next =>
    obtain ⟨found, -, h⟩ := try_ok h
    obtain ⟨-, h⟩ := else_ok h
    cases h
    exact .refl s

theorem voidReplaced_kept (hsound : s.Sound) (h : s.voidReplaced replaced = .ok s') : Kept s s' := by
  unfold voidReplaced at h
  split at h
  next =>
    cases h
    exact .refl hsound
  next old =>
    obtain ⟨⟨voided, last⟩, hvoid, h⟩ := try_ok h
    cases h
    exact hsound.kept_voids (voidInner_ok hvoid)

theorem createLicence_kept (hsound : s.Sound)
    (h : s.createLicence env customerId new = .ok (licence, s')) : Kept s s' := by
  obtain ⟨customer, -, h⟩ := try_ok h
  obtain ⟨⟨made, mid⟩, hmade, h⟩ := try_ok h
  obtain ⟨last, hreplaced, h⟩ := try_ok h
  obtain ⟨⟨⟩, -, h⟩ := try_ok h
  cases h
  have hfirst : Kept s mid := hsound.kept (createLicenceRow_ok hmade)
  exact hfirst.trans (voidReplaced_kept hfirst.sound hreplaced)

omit [CharTable] in
theorem assignKey_kept (hsound : s.Sound) (hlast : ∀ k', ¬ s.Replaced k' k)
    (h : s.assignKey env k l = .ok ((), s')) : Kept s s' := by
  obtain ⟨key, hkey, h⟩ := try_ok h
  obtain ⟨-, h⟩ := else_ok h
  obtain ⟨licence, hlicence, h⟩ := try_ok h
  obtain ⟨hactive, h⟩ := else_ok h
  obtain ⟨linked, hlink, h⟩ := try_ok h
  obtain ⟨⟨⟩, -, h⟩ := try_ok h
  cases h
  obtain ⟨hnone, rfl⟩ := linkKey_ok hlink
  have hlive : ¬ s.Voided l := not_voided_of_active (licence_ok hlicence).1 (by simpa using hactive)
  exact ⟨hsound.link hnone ⟨key, (info_ok hkey).1⟩ hlast hlive, fun _ hm => hm⟩

end Licences

/-! ## §2. Issuing and replacing keys. -/

section Flows

variable [Crypto] [CharTable] {request : Issuance} {customer : Customer} {licence : Licence}
  {ttl : Option Int} {key : ApiKey} {keys : List ApiKey}

theorem issueKey_kept (hsound : s.Sound) (hactive : ¬ s.Voided licence.id)
    (h : s.issueKey env customer licence ttl request scope = .ok (key, s')) :
    Kept s s' ∧ ¬ s'.Voided licence.id := by
  obtain ⟨statement, -, h⟩ := try_ok h
  obtain ⟨⟨made, mid⟩, hmade, h⟩ := try_ok h
  obtain ⟨last, hlink, h⟩ := try_ok h
  obtain ⟨-, rfl⟩ := Prod.mk.inj (Except.ok.inj h)
  obtain ⟨hquiet, hfresh, hknown⟩ := createAsBundle_ok hmade
  obtain ⟨hnone, rfl⟩ := linkKey_ok hlink
  have hmid : ¬ mid.Voided licence.id := fun hvoided => hactive ((hquiet.voided _).mp hvoided)
  -- a rotation away from the new key would be one of a key that did not exist
  have hlast : ∀ k', ¬ mid.Replaced k' made.id := by
    intro k' hreplaced
    exact hfresh (hsound.rotated _ _ ((hquiet.replaced _ _).mp hreplaced)).2
  have hkept : Kept s mid := hsound.kept hquiet
  exact ⟨⟨hkept.sound.link hnone hknown hlast hmid, hkept.voided⟩, hmid⟩

theorem issueKeys_kept (hsound : s.Sound) (hactive : ¬ s.Voided licence.id)
    (h : issueKeys env customer licence ttl request scopes s = .ok (keys, s')) : Kept s s' := by
  induction scopes generalizing s keys with
  | nil =>
    cases h
    exact .refl hsound
  | cons scope rest ih =>
    obtain ⟨⟨key, mid⟩, hkey, h⟩ := try_ok h
    obtain ⟨⟨others, last⟩, hothers, h⟩ := try_ok h
    cases h
    obtain ⟨hkept, hstill⟩ := issueKey_kept hsound hactive hkey
    exact hkept.trans (ih hkept.sound hstill hothers)

variable [SealedBoxes]

theorem issue_kept (hsound : s.Sound) (h : s.issue env request = .ok (keys, s')) : Kept s s' := by
  obtain ⟨⟨⟩, -, h⟩ := try_ok h
  obtain ⟨⟨customer, s₁⟩, hcustomer, h⟩ := try_ok h
  obtain ⟨⟨licence, s₂⟩, hlicence, h⟩ := try_ok h
  obtain ⟨ttl, httl, h⟩ := try_ok h
  obtain ⟨⟨made, s₃⟩, hkeys, h⟩ := try_ok h
  obtain ⟨s₄, hreplaced, h⟩ := try_ok h
  obtain ⟨⟨⟩, -, h⟩ := try_ok h
  cases h
  have hfirst : Kept s s₂ := hsound.kept ((issueCustomer_ok hcustomer).trans (issueLicence_ok hlicence))
  have hissued : Kept s₂ s₃ := issueKeys_kept hfirst.sound (secondsRemaining_ok httl) hkeys
  exact (hfirst.trans hissued).trans (voidReplaced_kept hissued.sound hreplaced)

omit [SealedBoxes] in
theorem rotate_kept (hsound : s.Sound) (h : s.rotate env id via = .ok (key, s')) : Kept s s' := by
  obtain ⟨⟨⟩, -, h⟩ := try_ok h
  obtain ⟨link, hlink, h⟩ := try_ok h
  obtain ⟨licence, hlicence, h⟩ := try_ok h
  obtain ⟨customer, -, h⟩ := try_ok h
  obtain ⟨ttl, httl, h⟩ := try_ok h
  obtain ⟨old, -, h⟩ := try_ok h
  obtain ⟨recorded, -, h⟩ := try_ok h
  obtain ⟨statement, -, h⟩ := try_ok h
  obtain ⟨⟨created, s₁⟩, hrotate, h⟩ := try_ok h
  obtain ⟨s₂, hexpiry, h⟩ := try_ok h
  obtain ⟨s₃, hlinked, h⟩ := try_ok h
  obtain ⟨⟨⟩, -, h⟩ := try_ok h
  obtain ⟨info, -, h⟩ := try_ok h
  cases h
  have hrotates : Rotates s s₂ created.id id := (rotateVia_ok hrotate).quiet (setExpiry_ok hexpiry)
  obtain ⟨hnone, rfl⟩ := linkKey_ok hlinked
  have hold : s.Linked id licence.id := ⟨link, okOr_ok hlink, (licence_ok hlicence).2.symm⟩
  exact ⟨hsound.rotates_link hrotates rfl hold (secondsRemaining_ok httl) hnone,
    fun l hl => (hrotates.voided l).mpr hl⟩

end Flows

/-! ## §3. Runs. -/

inductive DeskOp where
  | createCustomer (new : NewCustomer)
  | createLicence (customerId : Nat) (new : NewLicence)
  | issue (request : Issuance)
  | rotate (id : Nat) (via : RotateVia)
  | voidLicence (id : Nat) (reason : Option String)
  | renewLicence (id : Nat) (terms expiresAt : Option String)
  | assignKey (keyId licenceId : Nat)
  | revokeKey (id : Nat)
  | create (new : NewApiKey)
  | createAsBundle (new : NewApiKey) (recipient : Recipient)
  | rotateWith (id : Nat) (old : OldKey)
  | rotateAsBundle (id : Nat) (given : Option Recipient)
  | rotateAsLetter (id : Nat) (given : Option Recipient) (graceSeconds : Int)
  deriving DecidableEq, Repr

section Runs

variable [Crypto] [SealedBoxes] [CharTable]

def DeskOp.perform (env : RelayEnv) (s : KeyDesk) : DeskOp → Except Error KeyDesk
  | .createCustomer new => (s.createCustomer new).map Prod.snd
  | .createLicence customerId new => (s.createLicence env customerId new).map Prod.snd
  | .issue request => (s.issue env request).map Prod.snd
  | .rotate id via => (s.rotate env id via).map Prod.snd
  | .voidLicence id reason => (s.voidLicence env id reason).map Prod.snd
  | .renewLicence id terms expiresAt => (s.renewLicence env id terms expiresAt).map Prod.snd
  | .assignKey keyId licenceId => (s.assignKey env keyId licenceId).map Prod.snd
  | .revokeKey id => (s.revokeKey env id).map Prod.snd
  | .create new => (s.create env new).map Prod.snd
  | .createAsBundle new recipient => (s.createAsBundle env new recipient).map Prod.snd
  | .rotateWith id old => (s.rotateWith env id old).map Prod.snd
  | .rotateAsBundle id given => (s.rotateAsBundle env id given).map Prod.snd
  | .rotateAsLetter id given graceSeconds => (s.rotateAsLetter env id given graceSeconds).map Prod.snd

def exec (s : KeyDesk) (call : RelayEnv × DeskOp) : KeyDesk :=
  match call.2.perform call.1 s with
  | .ok s' => s'
  | .error _ => s

end Runs

def hasReplacement (s : KeyDesk) (k : Nat) : Bool :=
  s.events.any fun event => event.event = .rotated && event.relatedKeyId = some k

/-- The host rotates only keys without a licence, and assigns only keys that nothing has replaced. -/
def DeskOp.licensed (s : KeyDesk) : DeskOp → Bool
  | .rotateWith id _ | .rotateAsBundle id _ | .rotateAsLetter id _ _ => (s.links.find? id).isNone
  | .assignKey k _ => !s.hasReplacement k
  | _ => true

def Licensed (s : KeyDesk) (call : RelayEnv × DeskOp) : Prop := call.2.licensed s = true

instance (s : KeyDesk) (call : RelayEnv × DeskOp) : Decidable (Licensed s call) :=
  inferInstanceAs (Decidable (_ = true))

theorem not_replaced (h : s.hasReplacement k = false) (k' : Nat) : ¬ s.Replaced k' k := by
  intro ⟨event, hevent, hrotated, _, hrelated⟩
  unfold hasReplacement at h
  rw [any_eq_false] at h
  exact h event hevent (by simp [hrotated, hrelated])

section Runs

variable [Crypto] [SealedBoxes] [CharTable]

omit [Crypto] [SealedBoxes] [CharTable] in
theorem map_snd_ok {α : Type} {x : Except Error (α × KeyDesk)} (h : x.map Prod.snd = .ok s') :
    ∃ a, x = .ok (a, s') := by
  obtain ⟨⟨a, last⟩, hx, h⟩ := try_ok h
  cases h
  exact ⟨a, hx⟩

omit [Crypto] [SealedBoxes] in
theorem voidLicence_ok (h : s.voidLicence env l reason = .ok (voided, s')) : Voids s s' l := by
  obtain ⟨⟨done, last⟩, hvoid, h⟩ := try_ok h
  obtain ⟨⟨⟩, -, h⟩ := try_ok h
  cases h
  exact voidInner_ok hvoid

theorem DeskOp.perform_kept {op : DeskOp} (hsound : s.Sound) (hlicensed : Licensed s (env, op))
    (h : op.perform env s = .ok s') : Kept s s' := by
  cases op with
  | createCustomer =>
    obtain ⟨customer, h⟩ := map_snd_ok h
    exact hsound.kept (createCustomer_ok h)
  | createLicence =>
    obtain ⟨licence, h⟩ := map_snd_ok h
    exact createLicence_kept hsound h
  | issue =>
    obtain ⟨keys, h⟩ := map_snd_ok h
    exact issue_kept hsound h
  | rotate =>
    obtain ⟨key, h⟩ := map_snd_ok h
    exact rotate_kept hsound h
  | voidLicence =>
    obtain ⟨voided, h⟩ := map_snd_ok h
    exact hsound.kept_voids (voidLicence_ok h)
  | renewLicence =>
    obtain ⟨licence, h⟩ := map_snd_ok h
    obtain ⟨⟨renewed, last⟩, hrenewed, h⟩ := try_ok h
    obtain ⟨⟨⟩, -, h⟩ := try_ok h
    cases h
    exact hsound.kept (renewRow_ok hrenewed)
  | assignKey =>
    obtain ⟨⟨⟩, h⟩ := map_snd_ok h
    exact assignKey_kept hsound (not_replaced (by simpa [Licensed, DeskOp.licensed] using hlicensed)) h
  | revokeKey =>
    obtain ⟨⟨⟩, h⟩ := map_snd_ok h
    obtain ⟨last, hrevoked, h⟩ := try_ok h
    obtain ⟨⟨⟩, -, h⟩ := try_ok h
    cases h
    exact hsound.kept (revokeBy_ok hrevoked).1
  | create =>
    obtain ⟨key, h⟩ := map_snd_ok h
    exact hsound.kept (create_ok h).1
  | createAsBundle =>
    obtain ⟨key, h⟩ := map_snd_ok h
    exact hsound.kept (createAsBundle_ok h).1
  | rotateWith =>
    obtain ⟨key, h⟩ := map_snd_ok h
    exact hsound.kept_rotates (rotateWith_ok h) (Option.isNone_iff_eq_none.mp hlicensed)
  | rotateAsBundle =>
    obtain ⟨key, h⟩ := map_snd_ok h
    exact hsound.kept_rotates (rotateAsBundle_ok h) (Option.isNone_iff_eq_none.mp hlicensed)
  | rotateAsLetter =>
    obtain ⟨key, h⟩ := map_snd_ok h
    exact hsound.kept_rotates (rotateAsLetter_ok h) (Option.isNone_iff_eq_none.mp hlicensed)

theorem exec_kept (call : RelayEnv × DeskOp) (hsound : s.Sound) (hlicensed : Licensed s call) :
    Kept s (exec s call) := by
  unfold exec
  split
  next s' h => exact DeskOp.perform_kept hsound hlicensed h
  next => exact .refl hsound

omit [Crypto] [SealedBoxes] [CharTable] in
theorem empty_sound : KeyDesk.empty.Sound where
  inherits _ _ _ hreplaced := absurd hreplaced.choose_spec.1 not_mem_nil
  ended _ _ hvoided := nomatch hvoided
  rotated _ _ hreplaced := absurd hreplaced.choose_spec.1 not_mem_nil
  linked _ _ hlinked := nomatch hlinked

omit [SealedBoxes] [CharTable] in
theorem Sound.authenticate (hsound : s.Sound) (hvoided : s.Voided l) (hgave : s.GaveOut l k) (env : RelayEnv)
    (token : String) (scope : ApiKeyScope) : s.authenticate env token scope ≠ .ok k :=
  authenticate_revoked (hsound.ended k l hvoided (hsound.gaveOut hgave)) env token scope

/-- **A voided licence ends every key it gave out**, in every run that rotates linked keys through the
licensing flow only and assigns no replaced key. -/
theorem run_void_final {calls : List (RelayEnv × DeskOp)} (h : Runs.Along exec Licensed .empty calls)
    {n : Nat} {reason : Option String} (hcall : calls[n]? = some (env, .voidLicence l reason))
    (hdone : ∃ s', (DeskOp.voidLicence l reason).perform env (Runs.run exec .empty (calls.take n)) = .ok s')
    {m : Nat} (hlater : n < m) (hgave : (Runs.run exec .empty (calls.take m)).GaveOut l k)
    (env' : RelayEnv) (token : String) (scope : ApiKeyScope) :
    (Runs.run exec .empty (calls.take m)).authenticate env' token scope ≠ .ok k := by
  have hstep : ∀ s call, s.Sound → Licensed s call → (exec s call).Sound :=
    fun s call hs hlicensed => (exec_kept call hs hlicensed).sound
  have hkeep : ∀ s call, s.Sound → Licensed s call → s.Voided l → (exec s call).Voided l :=
    fun s call hs hlicensed => (exec_kept call hs hlicensed).voided l
  have hvoided : (Runs.run exec .empty (calls.take (n + 1))).Voided l := by
    obtain ⟨s', hs'⟩ := hdone
    obtain ⟨voided, hvoid⟩ := map_snd_ok hs'
    rw [Runs.run_take_succ hcall, exec, hs']
    exact ((voidLicence_ok hvoid).voided l).mpr (.inr rfl)
  have hstays : (Runs.run exec .empty (calls.take m)).Voided l :=
    h.lasts hstep hkeep empty_sound hvoided hlater
  exact (h.always hstep empty_sound m).authenticate hstays hgave env' token scope

end Runs

end KeyQuorum.Relay.KeyDesk

/-! ## §4. A key that outlives its licence. -/

namespace KeyQuorum.Relay.KeyDesk.Sample

open Foundation

attribute [local instance] Crypto.toy SealedBoxes.toy CharTable.ascii

def env : RelayEnv where
  now := 0
  nowText := "now"
  datetime _ := none
  dateText _ := "date"
  representable _ := true
  bearerHash id := sha256 (FixedBytes.ofNat 32 id).bytes
  decodeBase64 text := some (FixedBytes.ofNat 32 text.length).bytes
  validUrl _ := true
  sealBundle _ _ := .ok (.ofNat 32 0)
  storeLetter id _ _ := .ok id
  done := .ok ()

def request : Issuance where
  customer := .new ⟨"Ada", none⟩
  licence := .new ⟨"", none, none⟩
  scopes := [.inboxPush]
  recipientPublicKey := .ofNat 32 9
  relayUrl := "https://relay"
  deviceId := none

/-- The key is rotated through the licensing flow, then its licence voided. -/
def licensed : List (RelayEnv × DeskOp) :=
  [(env, .issue request), (env, .rotate 1 .bundle), (env, .voidLicence 1 none)]

def hostRotated : List (RelayEnv × DeskOp) :=
  [(env, .issue request), (env, .rotateAsBundle 1 none), (env, .voidLicence 1 none)]

theorem licensed_rotation_ended :
    (Runs.run exec .empty (licensed.take 3)).GaveOut 1 2
      ∧ ∀ env' token scope, (Runs.run exec .empty (licensed.take 3)).authenticate env' token scope ≠ .ok 2 := by
  have hruns : Runs.Along exec Licensed .empty licensed := by decide +kernel
  have hcall : licensed[2]? = some (env, .voidLicence 1 none) := rfl
  have hdone : ∃ s', (DeskOp.voidLicence 1 none).perform env (Runs.run exec .empty (licensed.take 2)) = .ok s'
      ∧ True := by decide +kernel
  have hgave : (Runs.run exec .empty (licensed.take 3)).GaveOut 1 2 := by
    refine .linked ⟨⟨2, 1, some 1, some 1⟩, ?_⟩
    decide +kernel
  obtain ⟨s', hs', -⟩ := hdone
  exact ⟨hgave, run_void_final hruns hcall ⟨s', hs'⟩ (by decide) hgave⟩

/-- **A key outlives its licence**: the host rotated it, the licence was voided, and the replacement still
authenticates. -/
theorem host_rotation_survives :
    (Runs.run exec .empty hostRotated).Voided 1 ∧ (Runs.run exec .empty hostRotated).GaveOut 1 2
      ∧ (Runs.run exec .empty hostRotated).authenticate env "kq_ab" .inboxPush = .ok 2 := by
  have hvoided : (Runs.run exec .empty hostRotated).Voided 1 := by
    refine ⟨⟨1, 1, none, true, none, none, ⟨1, "", none⟩, []⟩, ?_⟩
    decide +kernel
  have hlinked : (Runs.run exec .empty hostRotated).Linked 1 1 := by
    refine ⟨⟨1, 1, some 1, none⟩, ?_⟩
    decide +kernel
  have hreplaced : (Runs.run exec .empty hostRotated).Replaced 2 1 := by
    refine ⟨⟨2, .rotated, "host", some 1⟩, ?_⟩
    decide +kernel
  have hlive : (Runs.run exec .empty hostRotated).authenticate env "kq_ab" .inboxPush = .ok 2 := by decide +kernel
  exact ⟨hvoided, .replaced hreplaced (.linked hlinked), hlive⟩

end KeyQuorum.Relay.KeyDesk.Sample
