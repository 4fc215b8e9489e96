/-
  **WHAT A DESTINATION TAKES IN** (`transfer.rs`, `classify_incoming`,
  `receiver_accepts` and `apply_entry`).

  Each entry of a bundle is compared with what the ledger has under its
  label and its id.  A known identity keeps its keys and its label, and an
  entry of an older generation is a replay.
-/
import KeyQuorum.Transfer.Export
import KeyQuorum.Transfer.Change

namespace KeyQuorum.Transfer

open List Foundation

inductive Incoming where
  | newSecret
  | hint
  | reconcile
  | conflict
  | replay
  deriving DecidableEq, Repr

def BundleEntry.row [Crypto] (entry : BundleEntry) : IdentityRow where
  id := entry.identityId
  label := entry.label
  parentLabel := entry.parentLabel
  encPublic := entry.encPublic
  signPublic := entry.signPublic
  encFingerprint := Store.fingerprint entry.encPublic.bytes
  signFingerprint := Store.fingerprint entry.signPublic.bytes

namespace Ledger

/-! ## §1. Taking entries in. -/

def sameIdentity (row : IdentityRow) (entry : BundleEntry) : Bool :=
  row.id = entry.identityId && row.label = entry.label && row.encPublic = entry.encPublic
    && row.signPublic = entry.signPublic

def classifyIncoming (ledger : Ledger) (entry : BundleEntry) : Except Error Incoming :=
  if (ledger.identityByLabel entry.label).any fun row => !sameIdentity row entry then .ok .conflict
  else
    match ledger.identityById entry.identityId with
    | some row =>
      if !sameIdentity row entry then .ok .conflict
      else do
        let generation ← ledger.generationOf entry.identityId
        if entry.generation.val < generation.val then .ok .replay else .ok .reconcile
    | none => if entry.secrets.isNone then .ok .hint else .ok .newSecret

/-- Whether a new secret may come in under the labels that were active before. -/
def mayEnter (activeBefore : List String) (allowAncestorImport : Bool) (label : String) : Bool :=
  activeBefore.isEmpty
    || (activeBefore.any fun ancestor => isStrictDescendant label ancestor)
    || (allowAncestorImport && activeBefore.any fun descendant => isStrictDescendant descendant label)

def receiverAcceptsWith (ledger : Ledger) (allowAncestorImport : Bool) (activeBefore : List String) :
    List BundleEntry → Except Error Unit
  | [] => .ok ()
  | entry :: entries => do
      let incoming ← ledger.classifyIncoming entry
      match incoming with
      | .conflict => .error .identityConflict
      | .replay => .error .transferReplay
      | .reconcile | .hint => receiverAcceptsWith ledger allowAncestorImport activeBefore entries
      | .newSecret =>
        if mayEnter activeBefore allowAncestorImport entry.label then
          receiverAcceptsWith ledger allowAncestorImport activeBefore entries
        else .error .transferDenied

def receiverAccepts (ledger : Ledger) (bundle : Bundle) (allowAncestorImport : Bool) :
    Except Error Unit :=
  ledger.receiverAcceptsWith allowAncestorImport ledger.activeLabels bundle.entries

section Apply

variable [Crypto]

def insertEntry (entry : BundleEntry) (state : PossessionState) : Op Ledger Error Unit := do
  ensureHardware entry.label .encryption entry.encPublic
  ensureHardware entry.label .signing entry.signPublic
  insertIdentity entry.row ⟨entry.identityId, state, entry.generation⟩

/-- `apply_entry`.  A hint is classified as one only if its id is not known. -/
def applyEntry (entry : BundleEntry) : Op Ledger Error Unit := do
  let ledger ← Op.read
  let incoming ← Op.lift (ledger.classifyIncoming entry)
  match incoming with
  | .conflict => Op.lift (.error .identityConflict)
  | .replay => Op.lift (.error .transferReplay)
  | .reconcile =>
    if entry.secrets.isSome then setPossession entry.identityId .active entry.generation
    else pure ()
  | .hint => insertEntry entry .ghost
  | .newSecret => insertEntry entry .active

def applyEntries : List BundleEntry → Op Ledger Error Unit
  | [] => pure ()
  | entry :: entries => do
      applyEntry entry
      applyEntries entries

/-- The transaction of `commit_destination_rows`. -/
def commitBundle (bundle : Bundle) (allowAncestorImport : Bool) (activeBefore : List String) :
    Op Ledger Error Unit := do
  let ledger ← Op.read
  Op.lift (ledger.receiverAcceptsWith allowAncestorImport activeBefore bundle.entries)
  applyEntries bundle.entries
  setState bundle.id .destinationCommitted

end Apply

/-! ## §2. What may come in. -/

variable {ledger ledger' : Ledger} {entry : BundleEntry} {entries : List BundleEntry}
  {active : List String} {allow : Bool}

def Fits (ledger : Ledger) (entry : BundleEntry) : Prop :=
  ∃ incoming, ledger.classifyIncoming entry = .ok incoming ∧ incoming ≠ .conflict ∧ incoming ≠ .replay

theorem Fits.generation_le (h : ledger.Fits entry)
    (hrow : ledger.identityById entry.identityId = some row)
    (hg : ledger.generation? entry.identityId = some g) : g.val ≤ entry.generation.val := by
  obtain ⟨incoming, hclass, hconflict, hreplay⟩ := h
  unfold classifyIncoming at hclass
  split at hclass
  next => exact absurd (Except.ok.inj hclass).symm hconflict
  next =>
    rw [hrow] at hclass
    dsimp only at hclass
    split at hclass
    next => exact absurd (Except.ok.inj hclass).symm hconflict
    next =>
      obtain ⟨found, hfound, hclass⟩ := try_ok hclass
      have hfound := generationOf_ok hfound
      rw [hg] at hfound
      cases hfound
      split at hclass
      next => exact absurd (Except.ok.inj hclass).symm hreplay
      next hlt => exact Nat.le_of_not_lt hlt

theorem receiverAcceptsWith_ok (h : ledger.receiverAcceptsWith allow active entries = .ok ()) :
    ∀ entry ∈ entries, ledger.Fits entry := by
  induction entries with
  | nil => exact nofun
  | cons first rest ih =>
    obtain ⟨incoming, hclass, h⟩ := try_ok h
    have hfirst : incoming ≠ .conflict ∧ incoming ≠ .replay
        ∧ ledger.receiverAcceptsWith allow active rest = .ok () := by
      cases incoming with
      | conflict => cases h
      | replay => cases h
      | reconcile => exact ⟨by simp, by simp, h⟩
      | hint => exact ⟨by simp, by simp, h⟩
      | newSecret =>
        simp only at h
        obtain ⟨-, h⟩ := then_ok h
        exact ⟨by simp, by simp, h⟩
    intro entry hentry
    rcases mem_cons.mp hentry with rfl | hentry
    · exact ⟨incoming, hclass, hfirst.1, hfirst.2.1⟩
    · exact ih hfirst.2.2 entry hentry

/-- An entry that is in the ledger: under its id and its label, with its keys, and held if it came
with its secrets. -/
structure Taken (ledger : Ledger) (entry : BundleEntry) : Prop where
  row : ∃ row, ledger.identityById entry.identityId = some row
    ∧ ledger.identityByLabel entry.label = some row ∧ sameIdentity row entry = true
  held : ∃ held, ledger.possessions.find? entry.identityId = some held
    ∧ (entry.secrets.isSome = true → held.state = .active)

/-! ## §3. Taking it in. -/

variable [Crypto] {P : IdentityRow → Prop}

def heldAs (entry : BundleEntry) (state : PossessionState) : PossessionRow :=
  ⟨entry.identityId, state, entry.generation⟩

section

variable {state : PossessionState} {u : Unit} (h : insertEntry entry state ledger = (.ok u, ledger'))

include h

theorem insertEntry_ok :
    ∃ keys, ∃ mid : Ledger, mid = { ledger with hardwareKeys := keys }
      ∧ mid.identityById entry.row.id = none ∧ mid.identityByLabel entry.row.label = none
      ∧ mid.possessions.find? (heldAs entry state).identityId = none
      ∧ ledger' = mid.withIdentity entry.row (heldAs entry state) := by
  obtain ⟨_, mid, henc, h⟩ := Op.bind_ok h
  obtain ⟨_, mid', hsign, h⟩ := Op.bind_ok h
  obtain ⟨keys, rfl⟩ := ensureHardware_ok henc
  obtain ⟨keys', rfl⟩ := ensureHardware_ok hsign
  obtain ⟨hid, hlabel, hheld, hledger⟩ := insertIdentity_ok h
  exact ⟨keys', _, rfl, hid, hlabel, hheld, hledger⟩

theorem insertEntry_later (hP : P entry.row) : Later P ledger ledger' := by
  obtain ⟨keys, mid, hmid, hid, hlabel, hheld, rfl⟩ := insertEntry_ok h
  have hkeys : Change P ledger mid := by
    rw [hmid]
    exact Change.keys ledger keys
  exact (Relation.ReflTransGen.single hkeys).tail
    (Change.identity state entry.generation hP hid hlabel hheld)

theorem insertEntry_taken (hstate : entry.secrets.isSome → state = .active) : ledger'.Taken entry := by
  obtain ⟨keys, mid, -, hid, hlabel, hheld, rfl⟩ := insertEntry_ok h
  refine ⟨⟨entry.row, ?_, ?_, by simp [sameIdentity, BundleEntry.row]⟩, heldAs entry state, ?_, hstate⟩
  · rw [identityById_withIdentity hid]
    exact if_pos rfl
  · rw [identityByLabel_withIdentity hid]
    show (mid.identityByLabel entry.row.label).or _ = _
    rw [hlabel, Option.none_or]
    exact if_pos rfl
  · rw [find?_withIdentity hheld]
    exact if_pos rfl

theorem insertEntry_transactions : ledger'.transactions = ledger.transactions := by
  obtain ⟨keys, mid, hmid, -, -, -, rfl⟩ := insertEntry_ok h
  rw [hmid]
  rfl

theorem insertEntry_find? {id : Id16}
    (hheld : ledger.possessions.find? id = some held) : ledger'.possessions.find? id = some held := by
  obtain ⟨keys, mid, hmid, -, -, hnew, rfl⟩ := insertEntry_ok h
  have hmidHeld : mid.possessions.find? id = some held := by
    rw [hmid]
    exact hheld
  rw [find?_withIdentity hnew, if_neg (fun heq => ?_)]
  · exact hmidHeld
  · rw [heq, hnew] at hmidHeld
    cases hmidHeld

end

omit [Crypto] in
theorem classifyIncoming_reconcile (h : ledger.classifyIncoming entry = .ok .reconcile) :
    (∃ row, ledger.identityById entry.identityId = some row
      ∧ ledger.identityByLabel entry.label = some row ∧ sameIdentity row entry)
      ∧ ∃ g, ledger.generation? entry.identityId = some g ∧ g.val ≤ entry.generation.val := by
  have hfits : ledger.Fits entry := ⟨.reconcile, h, by simp, by simp⟩
  unfold classifyIncoming at h
  split at h
  next => cases h
  next hlabel =>
    cases hrow : ledger.identityById entry.identityId with
    | none =>
      rw [hrow] at h
      dsimp only at h
      split at h <;> cases h
    | some row =>
      rw [hrow] at h
      dsimp only at h
      split at h
      next => cases h
      next hsame =>
        obtain ⟨g, hg, -⟩ := try_ok h
        have hg := generationOf_ok hg
        refine ⟨⟨row, rfl, ?_, by simpa using hsame⟩, g, hg, hfits.generation_le hrow hg⟩
        -- the label is taken, and only by the row with this id
        obtain ⟨hmem, hid⟩ := Table.find?_some hrow
        have hsame' : row.label = entry.label := by
          simp only [sameIdentity, Bool.not_and, Bool.or_eq_true, Bool.not_eq_true',
            decide_eq_false_iff_not, not_or, not_not] at hsame
          exact hsame.1.1.2
        cases hfound : ledger.identityByLabel entry.label with
        | none =>
          unfold identityByLabel at hfound
          rw [List.find?_eq_none] at hfound
          exact absurd hsame' (by simpa using hfound row hmem)
        | some found =>
          rw [hfound] at hlabel
          simp only [Option.any_some, Bool.not_eq_true', Bool.not_eq_false, sameIdentity,
            Bool.and_eq_true, decide_eq_true_eq] at hlabel
          obtain ⟨hfoundMem, -⟩ := identityByLabel_some hfound
          have hkey := Table.find?_of_mem hfoundMem
          rw [hlabel.1.1.1] at hkey
          rw [show ledger.identities.find? entry.identityId = some row from hrow] at hkey
          rw [← Option.some.inj hkey]

omit [Crypto] in
theorem classifyIncoming_hint (h : ledger.classifyIncoming entry = .ok .hint) : entry.secrets = none := by
  unfold classifyIncoming at h
  split at h
  next => cases h
  next =>
    split at h
    next =>
      split at h
      next => cases h
      next =>
        obtain ⟨g, -, h⟩ := try_ok h
        split at h <;> cases h
    next =>
      split at h
      next hnone => exact Option.isNone_iff_eq_none.mp hnone
      next => cases h

/-- What is active stays so. -/
abbrev KeepsActive (ledger ledger' : Ledger) : Prop :=
  ∀ {id held}, ledger.possessions.find? id = some held → held.state = .active →
    ∃ held', ledger'.possessions.find? id = some held' ∧ held'.state = .active

/-- **What taking one entry in does.** -/
theorem applyEntry_ok (hP : P entry.row) (h : applyEntry entry ledger = (.ok u, ledger')) :
    Later P ledger ledger' ∧ ledger'.Taken entry
      ∧ ledger'.transactions = ledger.transactions ∧ KeepsActive ledger ledger' := by
  obtain ⟨incoming, hclass, h⟩ := Op.lift_bind_ok (Op.read_bind_ok h)
  cases incoming with
  | conflict => cases h
  | replay => cases h
  | hint =>
    have hnone : entry.secrets.isSome → PossessionState.ghost = .active := by
      rw [classifyIncoming_hint hclass]
      exact fun hsome => absurd hsome (by simp)
    exact ⟨insertEntry_later h hP, insertEntry_taken h hnone, insertEntry_transactions h,
      fun hheld hactive => ⟨_, insertEntry_find? h hheld, hactive⟩⟩
  | newSecret =>
    exact ⟨insertEntry_later h hP, insertEntry_taken h (fun _ => rfl), insertEntry_transactions h,
      fun hheld hactive => ⟨_, insertEntry_find? h hheld, hactive⟩⟩
  | reconcile =>
    obtain ⟨hrow, g, hg, hle⟩ := classifyIncoming_reconcile hclass
    dsimp only at h
    split at h
    next hsecret =>
      obtain ⟨⟨old, hold⟩, rfl⟩ := setPossession_ok h
      refine ⟨.single (Change.possession .active hg hle), ⟨hrow, ?_⟩, rfl, ?_⟩
      · refine ⟨{ old with state := .active, generation := entry.generation }, ?_, fun _ => rfl⟩
        unfold withPossession
        rw [Table.find?_change, if_pos rfl, hold]
        rfl
      · intro id held hheld hactive
        unfold withPossession
        rw [Table.find?_change]
        by_cases heq : id = entry.identityId
        · rw [if_pos heq, hheld]
          exact ⟨_, rfl, rfl⟩
        · rw [if_neg heq]
          exact ⟨held, hheld, hactive⟩
    next hsecret =>
      obtain ⟨-, rfl⟩ := Op.pure_ok h
      refine ⟨.refl, ⟨hrow, ?_⟩, rfl, fun hheld hactive => ⟨_, hheld, hactive⟩⟩
      obtain ⟨held, hheld, -⟩ := Option.map_eq_some_iff.mp hg
      exact ⟨held, hheld, fun hsome => absurd hsome hsecret⟩

omit [Crypto] in
theorem Taken.mono (h : ledger.Taken entry) (hgrown : Grown ledger ledger')
    (hactive : KeepsActive ledger ledger') : ledger'.Taken entry := by
  obtain ⟨row, hid, hlabel, hsame⟩ := h.row
  obtain ⟨held, hheld, hstate⟩ := h.held
  refine ⟨⟨row, hgrown.byId hid, hgrown.byLabel hlabel, hsame⟩, ?_⟩
  cases hsecret : entry.secrets.isSome with
  | true =>
    obtain ⟨held', hheld', hactive'⟩ := hactive hheld (hstate hsecret)
    exact ⟨held', hheld', fun _ => hactive'⟩
  | false =>
    have hg : ledger.generation? entry.identityId = some held.generation := by
      unfold generation?
      rw [hheld]
      rfl
    obtain ⟨g', hg', -⟩ := hgrown.generation hg
    obtain ⟨held', hheld', -⟩ := Option.map_eq_some_iff.mp hg'
    exact ⟨held', hheld', fun hcontra => absurd hcontra (by simp)⟩

theorem applyEntries_ok (hP : ∀ entry ∈ entries, P entry.row)
    (h : applyEntries entries ledger = (.ok u, ledger')) :
    Later P ledger ledger' ∧ (∀ entry ∈ entries, ledger'.Taken entry)
      ∧ ledger'.transactions = ledger.transactions ∧ KeepsActive ledger ledger' := by
  induction entries generalizing ledger with
  | nil =>
    obtain ⟨-, rfl⟩ := Op.pure_ok h
    exact ⟨.refl, nofun, rfl,
      fun hheld hactive => ⟨_, hheld, hactive⟩⟩
  | cons first rest ih =>
    obtain ⟨_, mid, hfirst, h⟩ := Op.bind_ok h
    obtain ⟨hlater, htaken, htx, hactive⟩ := applyEntry_ok (hP first (.head _)) hfirst
    obtain ⟨hlater', htaken', htx', hactive'⟩ :=
      ih (fun entry hentry => hP entry (mem_cons_of_mem first hentry)) h
    refine ⟨hlater.trans hlater', fun entry hentry => ?_, htx'.trans htx, fun hheld hstate => ?_⟩
    · rcases mem_cons.mp hentry with rfl | hentry
      · exact htaken.mono hlater'.grown hactive'
      · exact htaken' entry hentry
    · obtain ⟨held', hheld', hstate'⟩ := hactive hheld hstate
      exact hactive' hheld' hstate'

/-- **What holds after a bundle was taken in.** -/
theorem commitBundle_ok {bundle : Bundle} (hP : ∀ entry ∈ bundle.entries, P entry.row)
    (h : commitBundle bundle allow active ledger = (.ok u, ledger')) :
    (∀ entry ∈ bundle.entries, ledger.Fits entry) ∧ Later P ledger ledger'
      ∧ (∀ entry ∈ bundle.entries, ledger'.Taken entry)
      ∧ ∃ mid : Ledger, mid.transactions = ledger.transactions
          ∧ ledger' = mid.withState bundle.id .destinationCommitted := by
  obtain ⟨_, hfits, h⟩ := Op.lift_bind_ok (Op.read_bind_ok h)
  obtain ⟨_, mid, happly, h⟩ := Op.bind_ok h
  obtain ⟨hlater, htaken, htx, -⟩ := applyEntries_ok hP happly
  obtain ⟨-, rfl⟩ := setState_ok h
  have hstep : TxChange mid (mid.withState bundle.id .destinationCommitted) :=
    TxChange.state fun hopen => absurd hopen (by simp [TxState.isOpen])
  exact ⟨receiverAcceptsWith_ok hfits, hlater.tail (Change.transactions hstep),
    fun entry hentry => (htaken entry hentry).mono hstep.sameHeld.grown fun hheld hactive => ⟨_, hheld, hactive⟩,
    mid, htx, rfl⟩

end Ledger

end KeyQuorum.Transfer
