/-
  **IS A LETTER READABLE FOR AS LONG AS ITS PUSH ASKED?**

  A push asks for an expiry and is answered with the id of the letter's row.
  A repeat of a letter is answered with the row of the first push, whose
  expiry stays; `device_mail` deletes expired rows before it files a letter,
  the mailbox does not, so a repeat may be answered with a row that has
  already expired.
-/
import KeyQuorum.Foundation.Runs
import KeyQuorum.Relay.Mailbox.Pages

namespace KeyQuorum.Relay.Mailbox

open List Foundation

/-! ## §1. Runs of a mailbox. -/

inductive MailOp where
  | push (envelope : Bytes) (expiresAt : Option Int) (holdFrom : Option Nat)
  | ready (id : Nat)
  | abort (id : Nat)
  | dropStale (minutes : Int)
  | purge
  | list (fingerprint : String) (after limit : Option Int)
  deriving DecidableEq, Repr

/-- Reads and purges: what may come between the two steps of a push, since pushes run one at a time. -/
def MailOp.betweenSteps : MailOp → Bool
  | .dropStale _ | .purge | .list _ _ _ => true
  | .push _ _ _ | .ready _ | .abort _ => false

section Runs

variable [Crypto]

def exec (m : Mailbox) (call : Int × MailOp) : Mailbox :=
  match call.2 with
  | .push envelope expiresAt holdFrom =>
    match m.inboxPush call.1 envelope expiresAt holdFrom with
    | .ok (_, m') => m'
    | .error _ => m
  | .ready id => (m.markReady id).2
  | .abort id => (m.abort id).2
  | .dropStale minutes => m.dropStalePending call.1 minutes
  | .purge => m.purgeExpired call.1
  | .list fingerprint after limit =>
    match m.listAfter .inbox call.1 fingerprint after limit with
    | .ok (_, m') => m'
    | .error _ => m

end Runs

/-! ## §2. What a call keeps. -/

variable {m m' : Mailbox} {row : MailRow} {now : Int} {address : String × Digest} {letter : Bytes}
  {expiresAt : Option Int} {holdFrom : Option Nat} {stored : Stored} {id : Nat}

@[simp] theorem newRow_id : (newRow id now address letter expiresAt holdFrom).id = id := by
  unfold newRow
  split <;> rfl

@[simp] theorem newRow_address : (newRow id now address letter expiresAt holdFrom).address = address := by
  unfold newRow
  split <;> rfl

@[simp] theorem newRow_expiresAt : (newRow id now address letter expiresAt holdFrom).expiresAt = expiresAt := by
  unfold newRow
  split <;> rfl

variable {table : MailTable} {t : Int}

theorem file_cases (h : m.file table now address letter expiresAt holdFrom = (stored, m')) :
    (∃ row, m.find? address = some row ∧ m' = m ∧ stored.id = row.id ∧ stored.recipientFingerprint = address.1
        ∧ (stored.blob = none ↔ row.keeping.ready))
      ∨ m.find? address = none
        ∧ m'.rows = m.rows ++ [newRow m.next now address letter expiresAt holdFrom]
        ∧ stored.id = m.next ∧ stored.recipientFingerprint = address.1 ∧ stored.duplicate = false
        ∧ (stored.blob = none ↔ (newRow m.next now address letter expiresAt holdFrom).keeping.ready) := by
  unfold file at h
  split at h
  next hnone =>
    right
    cases h
    refine ⟨hnone, Serial.rows_insert newRow_id (by rw [newRow_address]; exact hnone), newRow_id, rfl, rfl, ?_⟩
    unfold newRow MailRow.blob
    split <;> simp [Keeping.ready]
  next row hrow =>
    left
    cases h
    refine ⟨row, hrow, rfl, rfl, rfl, ?_⟩
    unfold Keeping.pending MailRow.blob
    cases row.keeping with
    | inRow => simp [Keeping.ready]
    | held len ready => cases ready <;> simp [Keeping.ready]

theorem mem_file (h : row ∈ m.rows) :
    row ∈ (m.file table now address letter expiresAt holdFrom).2.rows := by
  rcases file_cases (Prod.eta _).symm with ⟨-, -, hsame, -⟩ | ⟨-, hrows, -⟩
  · rw [hsame]
    exact h
  · rw [hrows]
    exact mem_append_left _ h

theorem not_waits (hready : row.keeping.ready) : waits id row = false := by
  unfold waits Keeping.pending
  simp [hready]

theorem mem_markReady : row ∈ (m.markReady id).2.rows ↔ ∃ before ∈ m.rows, readied id before = row := mem_map

theorem readied_of_ready (hready : row.keeping.ready) : readied id row = row := by
  unfold readied
  rw [not_waits hready]
  rfl

theorem readied_of_waits (h : waits id row) : (readied id row).keeping.ready
    ∧ (readied id row).expiresAt = row.expiresAt ∧ (readied id row).id = row.id
    ∧ (readied id row).address = row.address := by
  have hsame := readied_same id row
  refine ⟨?_, ?_, hsame.1, hsame.2⟩
  · unfold readied madeReady
    rw [if_pos h]
    unfold waits Keeping.pending at h
    split
    next => rfl
    next hkeeping => simp [hkeeping, Keeping.ready] at h
  · unfold readied madeReady
    rw [if_pos h]
    split <;> rfl

theorem unexpired_mono (h : unexpired t expiresAt) (hle : now ≤ t) :
    unexpired now expiresAt := by
  unfold unexpired at h ⊢
  cases expiresAt with
  | none => rfl
  | some e =>
    simp only [Option.all_some, decide_eq_true_eq] at h ⊢
    exact Int.lt_of_le_of_lt hle h

section Runs

variable [Crypto] {calls : List (Int × MailOp)}

theorem exec_keeps (call : Int × MailOp) (h : row ∈ m.rows) (hready : row.keeping.ready)
    (hlive : unexpired call.1 row.expiresAt) : row ∈ (exec m call).rows := by
  obtain ⟨now, op⟩ := call
  cases op with
  | push envelope expiresAt holdFrom =>
    simp only [exec]
    split
    next stored m' hpush =>
      obtain ⟨⟨⟩, -, hpush⟩ := try_ok hpush
      obtain ⟨address, -, hpush⟩ := try_ok hpush
      have hfile := Except.ok.inj hpush
      rw [show m' = (m.file .inbox now address envelope expiresAt holdFrom).2 by rw [hfile]]
      exact mem_file h
    next => exact h
  | ready => exact mem_markReady.mpr ⟨row, h, readied_of_ready hready⟩
  | abort => exact Serial.mem_delete.mpr ⟨h, not_waits hready⟩
  | dropStale =>
    refine Serial.mem_delete.mpr ⟨h, ?_⟩
    unfold Keeping.pending
    simp [hready]
  | purge => exact mem_purgeExpired.mpr ⟨h, hlive⟩
  | list =>
    simp only [exec]
    split
    next page m' hlist =>
      rw [listAfter_ok hlist]
      exact mem_purgeExpired.mpr ⟨h, hlive⟩
    next => exact h

/-- **A ready row stays until it expires.** -/
theorem run_keeps (h : row ∈ m.rows) (hready : row.keeping.ready) (hlive : unexpired t row.expiresAt)
    (hclock : ∀ call ∈ calls, call.1 ≤ t) : row ∈ (Runs.run exec m calls).rows := by
  induction calls generalizing m with
  | nil => exact h
  | cons call rest ih =>
    have hnow : unexpired call.1 row.expiresAt := unexpired_mono hlive (hclock call (.head _))
    exact ih (exec_keeps call h hready hnow) fun later hlater => hclock later (.tail _ hlater)

theorem run_betweenSteps (hcalls : ∀ call ∈ calls, call.2.betweenSteps)
    (h : row ∈ (Runs.run exec m calls).rows) : row ∈ m.rows := by
  induction calls generalizing m with
  | nil => exact h
  | cons call rest ih =>
    have hrest := ih (fun later hlater => hcalls later (.tail _ hlater)) h
    have hcall := hcalls call (.head _)
    obtain ⟨now, op⟩ := call
    cases op with
    | push => exact absurd hcall (by simp [MailOp.betweenSteps])
    | ready => exact absurd hcall (by simp [MailOp.betweenSteps])
    | abort => exact absurd hcall (by simp [MailOp.betweenSteps])
    | dropStale => exact (Serial.mem_delete.mp hrest).1
    | purge => exact (mem_purgeExpired.mp hrest).1
    | list =>
      simp only [exec] at hrest
      split at hrest
      next page m' hlist =>
        rw [listAfter_ok hlist] at hrest
        exact (mem_purgeExpired.mp hrest).1
      next => exact hrest

end Runs

/-! ## §3. Readable for as long as was asked. -/

def lasts (held requested : Option Int) : Bool := held.all fun h => requested.any fun e => e ≤ h

def Outlasts (m : Mailbox) (address : String × Digest) (requested : Option Int) : Prop :=
  ∀ row, m.find? address = some row → lasts row.expiresAt requested = true

theorem unexpired_of_lasts (h : lasts held requested)
    (hlive : unexpired t requested) : unexpired t held := by
  unfold lasts at h
  unfold unexpired at hlive ⊢
  cases held with
  | none => rfl
  | some r =>
    cases requested with
    | none => cases h
    | some e =>
      simp only [Option.all_some, Option.any_some, decide_eq_true_eq] at h hlive ⊢
      exact Int.lt_of_lt_of_le hlive h

/-- A row that ends sooner than asked has a time at which it has expired and the request has not. -/
theorem exists_expired (h : lasts held requested = false) (hfuture : unexpired now requested) :
    ∃ t, now ≤ t ∧ unexpired t requested ∧ unexpired t held = false := by
  unfold lasts at h
  unfold unexpired at hfuture ⊢
  cases held with
  | none => cases h
  | some r =>
    refine ⟨max now r, Int.le_max_left _ _, ?_, ?_⟩
    · cases requested with
      | none => rfl
      | some e =>
        simp only [Option.all_some, Option.any_some, decide_eq_true_eq, decide_eq_false_iff_not] at h hfuture ⊢
        omega
    · simp only [Option.all_some, decide_eq_false_iff_not]
      omega

section Claims

variable [Crypto]

/-- The letter's bytes are stored: in its row, or, after reads and purges, in object storage. -/
def Completes (stored : Stored) (m₁ m₂ : Mailbox) : Prop :=
  match stored.blob with
  | none => m₂ = m₁
  | some _ => ∃ calls, (∀ call ∈ calls, call.2.betweenSteps = true)
      ∧ (Runs.run exec m₁ calls).markReady stored.id = (true, m₂)

/-- A pull of the letter's fingerprint from the beginning lists the letter. -/
def Lists (m : Mailbox) (t : Int) (limit : Option Int) (stored : Stored) (hash : Digest) : Prop :=
  ∃ letters, pull .inbox t stored.recipientFingerprint limit (m.rows.length + 1) none m = .ok letters
    ∧ ∃ row ∈ m.rows, row.id = stored.id ∧ row.contentHash = hash ∧ row.entry .inbox ∈ letters

/-- Whatever comes after a push whose bytes were stored, every pull before the expiry it asked for lists
the letter. -/
def StaysReadable (now : Int) (expiresAt : Option Int) (hash : Digest) (stored : Stored) (m₁ : Mailbox) : Prop :=
  ∀ m₂, Completes stored m₁ m₂ → ∀ (calls : List (Int × MailOp)) (t : Int) (limit : Option Int) (size : Nat),
    pageSize limit = .ok size → now ≤ t → (∀ call ∈ calls, call.1 ≤ t) → unexpired t expiresAt = true →
      (Runs.run exec m₂ calls).Lists t limit stored hash

variable {t : Int} {limit : Option Int} {size : Nat} {m₁ : Mailbox}

omit [Crypto] in
theorem pull_all (hsize : pageSize limit = .ok size) :
    ∃ letters, pull .inbox t fingerprint limit (m.rows.length + 1) none m = .ok letters
      ∧ ∀ item, item ∈ letters ↔ ∃ row ∈ m.rows, readable t fingerprint 0 row
        ∧ row.entry .inbox = item :=
  pull_ok hsize (Nat.lt_succ_of_le ((length_filter_le _ _).trans (length_filter_le _ _)))

section

variable (hsize : pageSize limit = .ok size) (hrow : row ∈ m.rows) (hid : row.id = stored.id)

include hsize hrow hid

theorem lists_of_mem (haddress : row.address = (stored.recipientFingerprint, sha256 letter))
    (hready : row.keeping.ready) (hlive : unexpired t row.expiresAt) :
    m.Lists t limit stored (sha256 letter) := by
  obtain ⟨letters, hletters, hmem⟩ := @pull_all m t limit size stored.recipientFingerprint hsize
  have hreadable : readable t stored.recipientFingerprint 0 row :=
    readable_iff.mpr ⟨(Prod.mk.inj haddress).1, Int.natCast_pos.mpr (m.positive row hrow), hready, hlive⟩
  exact ⟨letters, hletters, row, hrow, hid, (Prod.mk.inj haddress).2, (hmem _).mpr ⟨row, hrow, hreadable, rfl⟩⟩

omit [Crypto] in
theorem not_lists_of_expired (hexpired : unexpired t row.expiresAt = false) (hash : Digest) :
    ¬ m.Lists t limit stored hash := by
  intro ⟨letters, hletters, found, hfound, hfoundId, _, hlisted⟩
  obtain ⟨letters', hletters', hmem⟩ := @pull_all m t limit size stored.recipientFingerprint hsize
  obtain rfl := Except.ok.inj (hletters.symm.trans hletters')
  obtain ⟨listed, hin, hreadable, hentry⟩ := (hmem _).mp hlisted
  -- the entry's id is the row's
  have hlistedId : listed.id = found.id := congrArg StoredEnvelope.id hentry
  have hsame : listed = row := Serial.eq_of_num hin hrow (hlistedId.trans (hfoundId.trans hid.symm))
  rw [hsame] at hreadable
  exact absurd (hexpired.symm.trans (readable_iff.mp hreadable).2.2.2) (by simp)

end

theorem Completes.ready_row (h : Completes stored m₁ m₂) (hrow : row ∈ m₁.rows)
    (hid : row.id = stored.id) (hready : stored.blob = none → row.keeping.ready) :
    ∃ after ∈ m₂.rows, after.id = stored.id ∧ after.address = row.address ∧ after.expiresAt = row.expiresAt
      ∧ after.keeping.ready := by
  unfold Completes at h
  split at h
  next hnone =>
    subst h
    exact ⟨row, hrow, hid, rfl, rfl, hready hnone⟩
  next =>
    obtain ⟨calls, hcalls, hmark⟩ := h
    obtain ⟨hany, rfl⟩ := Prod.mk.inj hmark
    -- the row that waited is the row of the push: no push ran in between
    obtain ⟨waiting, hwaiting, hwaits⟩ := any_eq_true.mp hany
    have hbefore : waiting ∈ m₁.rows := run_betweenSteps hcalls hwaiting
    have hwid : waiting.id = stored.id := by
      unfold waits at hwaits
      simp only [Bool.and_eq_true, decide_eq_true_eq] at hwaits
      exact hwaits.1
    obtain rfl := Serial.eq_of_num hbefore hrow (hwid.trans hid.symm)
    obtain ⟨hnow, hexpires, hsame, haddress⟩ := readied_of_waits hwaits
    exact ⟨_, mem_markReady.mpr ⟨_, hwaiting, rfl⟩, hsame.trans hwid, haddress, hexpires, hnow⟩

theorem exists_completes (hrow : row ∈ m₁.rows) (hid : row.id = stored.id)
    (hpending : stored.blob ≠ none → row.keeping.ready = false) : ∃ m₂, Completes stored m₁ m₂ := by
  unfold Completes
  split
  next => exact ⟨m₁, rfl⟩
  next hblob =>
    refine ⟨(m₁.markReady stored.id).2, [], nofun, Prod.ext ?_ rfl⟩
    have hwaits : waits stored.id row := by
      unfold waits Keeping.pending
      simp [hid, hpending (by simp [hblob])]
    exact any_eq_true.mpr ⟨row, hrow, hwaits⟩

theorem routingOf_ok (h : routingOf letter = .ok address) :
    address.2 = sha256 letter ∧ ∃ outer, Letter.parseOuter letter = .ok outer := by
  obtain ⟨outer, houter, h⟩ := try_ok h
  dsimp only at h
  obtain ⟨-, h⟩ := else_ok h
  exact ⟨congrArg Prod.snd (Except.ok.inj h).symm, outer, houter⟩

omit [Crypto] in
theorem lasts_refl (requested : Option Int) : lasts requested requested := by
  cases requested <;> simp [lasts]

theorem inboxPush_row (h : m.inboxPush now letter expiresAt holdFrom = .ok (stored, m₁)) :
    ∃ row ∈ m₁.rows, row.id = stored.id ∧ row.address = (stored.recipientFingerprint, sha256 letter)
      ∧ (stored.blob = none ↔ row.keeping.ready)
      ∧ (m.Outlasts (stored.recipientFingerprint, sha256 letter) expiresAt
        ↔ lasts row.expiresAt expiresAt) := by
  obtain ⟨⟨⟩, -, h⟩ := try_ok h
  obtain ⟨address, hrouting, h⟩ := try_ok h
  have hhash : address.2 = sha256 letter := (routingOf_ok hrouting).1
  rcases file_cases (Except.ok.inj h) with ⟨row, hfound, rfl, hid, hfp, hblob⟩ | ⟨hnone, hrows, hid, hfp, -, hblob⟩
  · obtain ⟨hmem, haddress⟩ := Serial.find?_some hfound
    have hwhole : address = (stored.recipientFingerprint, sha256 letter) := Prod.ext hfp.symm hhash
    refine ⟨row, hmem, hid.symm, haddress.trans hwhole, hblob, ?_⟩
    rw [← hwhole]
    constructor
    · exact fun hout => hout row hfound
    · intro hlasts found hfound'
      obtain rfl := Option.mem_unique hfound hfound'
      exact hlasts
  · have hwhole : address = (stored.recipientFingerprint, sha256 letter) := Prod.ext hfp.symm hhash
    refine ⟨newRow m.next now address letter expiresAt holdFrom, ?_, ?_, ?_, hblob, ?_⟩
    · rw [hrows]
      exact mem_concat_self
    · rw [hid, newRow_id]
    · rw [newRow_address, hwhole]
    · rw [← hwhole, newRow_expiresAt]
      refine ⟨fun _ => lasts_refl expiresAt, fun _ found hfound => ?_⟩
      exact absurd (hnone.symm.trans hfound) (by simp)

/-- **A push is readable for as long as it asked exactly when no row of the letter ends sooner.** -/
theorem inboxPush_readable_iff {m₁ : Mailbox}
    (h : m.inboxPush now letter expiresAt holdFrom = .ok (stored, m₁)) :
    StaysReadable now expiresAt (sha256 letter) stored m₁
      ↔ m.Outlasts (stored.recipientFingerprint, sha256 letter) expiresAt := by
  obtain ⟨row, hrow, hid, haddress, hblob, houtlasts⟩ := inboxPush_row h
  rw [houtlasts]
  constructor
  · intro hstays
    by_contra hsooner
    -- complete the push at once, and pull when its row has expired
    obtain ⟨⟨⟩, hfuture, -⟩ := try_ok h
    have hasked : unexpired now expiresAt = true := by
      obtain ⟨hlive, hfuture⟩ := then_ok hfuture
      exact hlive
    obtain ⟨t, hlater, hstill, hexpired⟩ := exists_expired (by simpa using hsooner) hasked
    obtain ⟨m₂, hcompletes⟩ := exists_completes hrow hid fun hne => by simpa using mt hblob.mpr hne
    obtain ⟨after, hafter, hafterId, -, hexpires, -⟩ := hcompletes.ready_row hrow hid hblob.mp
    have hlists := hstays m₂ hcompletes [] t none defaultInboxPage rfl hlater (nofun) hstill
    exact not_lists_of_expired rfl hafter hafterId (hexpires ▸ hexpired) _ hlists
  · intro hlasts m₂ hcompletes calls t limit size hsize _ hclock hasked
    obtain ⟨after, hafter, hafterId, hsame, hexpires, hready⟩ := hcompletes.ready_row hrow hid hblob.mp
    have hlive : unexpired t after.expiresAt = true := by
      rw [hexpires]
      exact unexpired_of_lasts hlasts hasked
    exact lists_of_mem hsize (run_keeps hafter hready hlive hclock) hafterId (hsame.trans haddress) hready hlive

/-- **A push made again stores nothing twice**: while the letter's row lasts, whatever came in between,
it is answered with that row and leaves the mailbox as it is. -/
theorem inboxPush_again {m₁ m₂ : Mailbox} (h : m.inboxPush now letter expiresAt holdFrom = .ok (stored, m₁))
    (hcompletes : Completes stored m₁ m₂)
    (houtlasts : m.Outlasts (stored.recipientFingerprint, sha256 letter) expiresAt)
    (hclock : ∀ call ∈ calls, call.1 ≤ t) (hlive : unexpired t expiresAt) (hagain : unexpired t again) :
    (Runs.run exec m₂ calls).inboxPush t letter again hold
      = .ok (⟨stored.id, stored.recipientFingerprint, true, none⟩, Runs.run exec m₂ calls) := by
  obtain ⟨row, hrow, hid, haddress, hblob, hlasts⟩ := inboxPush_row h
  obtain ⟨after, hafter, hafterId, hsame, hexpires, hready⟩ := hcompletes.ready_row hrow hid hblob.mp
  have hstays := run_keeps hafter hready
    (hexpires ▸ unexpired_of_lasts (hlasts.mp houtlasts) hlive) hclock
  obtain ⟨⟨⟩, -, h⟩ := try_ok h
  obtain ⟨address, hrouting, h⟩ := try_ok h
  have hfp : stored.recipientFingerprint = address.1 := by
    rcases file_cases (Except.ok.inj h) with ⟨_, -, -, -, hfp, -⟩ | ⟨-, -, -, hfp, -⟩ <;> exact hfp
  have hfind := Serial.find?_of_mem hstays
  rw [hsame, haddress, hfp, ← (routingOf_ok hrouting).1] at hfind
  unfold inboxPush storeUntilHeld requireFuture file Keeping.pending
  rw [if_pos hagain, hrouting]
  simp only [except_ok_bind, hfind, hready, hafterId, hfp, Bool.not_true, Bool.not_false]
  rfl

end Claims

end KeyQuorum.Relay.Mailbox

/-! ## §4. A push answered with an expired row. -/

namespace KeyQuorum.Relay.Mailbox.Sample

open Foundation

attribute [local instance] Crypto.toy

def letter : Bytes :=
  Letter.magic ++ ([Letter.version] ++ ([13] ++ ((FixedBytes.ofNat 32 2).bytes ++ [0, 0, 0, 0])))

def short : Mailbox := Runs.run exec .empty [(0, .push letter (some 10) none)]

def answer : Stored := ⟨1, Store.fingerprint (.ofNat 32 2 : Digest).bytes, true, none⟩

theorem repeat_readable : StaysReadable 1 (some 10) (sha256 letter) answer short := by
  have hpush : short.inboxPush 1 letter (some 10) none = .ok (answer, short) := by decide +kernel
  refine (inboxPush_readable_iff hpush).mpr fun row hfound => ?_
  have hexpires : (short.find? (answer.recipientFingerprint, sha256 letter)).map MailRow.expiresAt
      = some (some 10) := by
    decide +kernel
  rw [hfound] at hexpires
  rw [Option.some.inj hexpires]
  rfl

theorem repeat_stores_nothing : (Runs.run exec short [(3, .purge)]).inboxPush 5 letter none none
    = .ok (answer, Runs.run exec short [(3, .purge)]) := by
  have hpush : inboxPush 0 letter (some 10) none .empty
      = .ok (⟨1, answer.recipientFingerprint, false, none⟩, short) := by decide +kernel
  exact inboxPush_again hpush rfl nofun (by decide) rfl rfl

/-- **A push is answered with success and never readable**: at second eleven the letter's first row has
expired and is still there, so the repeat, which asks for twenty, is answered with it; the next pull lists
nothing. -/
theorem repeat_unreadable :
    short.inboxPush 11 letter (some 20) none = .ok (answer, short)
      ∧ pull .inbox 12 answer.recipientFingerprint none (short.rows.length + 1) none short = .ok [] := by
  decide +kernel

end KeyQuorum.Relay.Mailbox.Sample
