/-
  **WHERE A TRANSFER CAN STOP.**

  Until the destination has committed, the source is as it was and the
  destination has at most some slots more, all of them noted in its row.
  From the commit on, the destination has everything that was handed over,
  and the source is somewhere on its way to letting go.
-/
import KeyQuorum.Transfer.Prepare

namespace KeyQuorum.Transfer

open List Foundation Ledger

/-! ## §1. Setting a state. -/

section States

variable {here : End} {tx : Id16} {row : TxRow} {state : TxState} {ledger : Ledger}

theorem setState_ends :
    Run.Ends (onLedger (setState tx state)) here
      (fun _ there => there = { here with ledger := here.ledger.withState tx state })
      fun there => there = here := by
  refine onLedger_ends rfl fun _ ledger hrun => ?_
  obtain ⟨-, rfl⟩ := setState_ok hrun
  rfl

theorem tx_withState_of_some (hrow : ledger.tx tx = some row) :
    (ledger.withState tx state).tx tx = some { row with state } := by
  rw [tx_withState, if_pos rfl, hrow]
  rfl

theorem txState_withState (hrow : ledger.tx tx = some row) :
    (ledger.withState tx state).txState tx = some state :=
  txState_of_tx (tx_withState_of_some hrow)

theorem sameHeld_withState (h : SameHeld ledger ledger') :
    SameHeld ledger (ledger'.withState tx state) := ⟨h.identities_eq, h.possessions_eq⟩

theorem Gains.slot_some (h : Gains container container') (hslot : container.slot label = some slot) :
    container'.slot label = some slot := by
  obtain ⟨extra, hslots⟩ := h.slots
  unfold Container.slot at hslot ⊢
  rw [hslots, find?_append, hslot]
  rfl

theorem Ledger.Taken.possession {entry : BundleEntry} (h : ledger.Taken entry)
    (hsecret : entry.secrets.isSome) : ledger.possession entry.label = some .active := by
  obtain ⟨identity, -, hlabel, hsame⟩ := h.row
  obtain ⟨held, hheld, hactive⟩ := h.held
  have hid : identity.id = entry.identityId := by
    simp only [sameIdentity, Bool.and_eq_true, decide_eq_true_eq] at hsame
    exact hsame.1.1.1
  unfold Ledger.possession
  rw [hlabel, Option.bind_eq_bind, Option.bind_some, hid, hheld, Option.bind_eq_bind, Option.bind_some,
    hactive hsecret]

theorem Raised.kept (h : Raised a b) :
    b.transactions = a.transactions ∧ ∀ label, b.possession label = a.possession label := by
  induction h with
  | refl => exact ⟨rfl, fun _ => rfl⟩
  | tail _ hstep ih =>
    obtain ⟨id, generation, rfl⟩ := hstep
    refine ⟨ih.1, fun label => (?_ : _ = _).trans (ih.2 label)⟩
    unfold Ledger.possession withGenerationAtLeast
    congr 1
    funext row
    rw [Table.find?_change]
    split
    · cases Table.find? _ row.id <;> rfl
    · rfl

end States

/-! ## §2. The phases. -/

section Phases

variable [Crypto]

structure SourceRow (prepared : PreparedTransfer) (row : TxRow) : Prop where
  operation_eq : row.operation = prepared.bundle.operation
  hash_eq : row.packageHash = sha256 prepared.package
  included_eq : row.included = prepared.secretLabels

structure SourceKept (start : End) (prepared : PreparedTransfer) (here : End) : Prop where
  held : SameHeld start.ledger here.ledger
  container_eq : here.container = start.container
  row : ∃ row, here.ledger.tx prepared.bundle.id = some row ∧ SourceRow prepared row
    ∧ (row.state = .prepared ∨ row.state = .aborted)

def LetGo (prepared : PreparedTransfer) (here : End) : Prop :=
  prepared.bundle.operation = .move → ∀ label ∈ prepared.secretLabels,
    here.ledger.possession label = some .ghost ∧ here.container.slot label = none

structure SourceLetting (start : End) (prepared : PreparedTransfer) (row : TxRow) (here : End) :
    Prop where
  tx_eq : here.ledger.tx prepared.bundle.id = some row
  own : SourceRow prepared row
  either : (row.state = .prepared ∧ SameHeld start.ledger here.ledger)
    ∨ ((row.state = .sourceFinalized ∨ row.state = .completed) ∧ LetGo prepared here)

theorem SourceLetting.kept (h : SourceLetting start prepared row here)
    (hfinal : row.state ≠ .sourceFinalized) (hcompleted : row.state ≠ .completed) :
    row.state = .prepared ∧ SameHeld start.ledger here.ledger :=
  h.either.resolve_right fun hdone => hdone.1.elim hfinal hcompleted

theorem SourceLetting.letGo (h : SourceLetting start prepared row here) (hstate : row.state ≠ .prepared) :
    (row.state = .sourceFinalized ∨ row.state = .completed) ∧ LetGo prepared here :=
  h.either.resolve_left fun hprepared => hstate hprepared.1

theorem SourceRow.moved_eq (h : SourceRow prepared row) :
    row.moved = if prepared.bundle.operation = .move then prepared.secretLabels else [] := by
  unfold TxRow.moved
  rw [h.operation_eq, h.included_eq]

theorem SourceKept.setState (h : SourceKept start prepared here) :
    SourceKept start prepared
      { here with ledger := here.ledger.withState prepared.bundle.id .aborted } := by
  obtain ⟨row, hrow, hown, -⟩ := h.row
  exact ⟨sameHeld_withState h.held, h.container_eq, _, tx_withState_of_some hrow, { hown with }, .inr rfl⟩

variable [KeyPairs] {container : Container}

def BundleEntry.fills (entry : BundleEntry) (slot : SlotRecord) : Prop :=
  slot.label = entry.label ∧ slot.publicKeys = (entry.encPublic, entry.signPublic)

/-- The container with slots of these labels more, none of which it had. -/
structure Extended (start : Container) (entries : List BundleEntry) (labels : List String)
    (container : Container) : Prop where
  fresh : ∀ label ∈ labels, start.slot label = none ∧ validateSlotLabel label = .ok ()
  slots : ∃ extra : List SlotRecord, container = { start with slots := start.slots ++ extra }
    ∧ ∀ slot ∈ extra, slot.label ∈ labels ∧ ∃ entry ∈ entries, entry.fills slot

/-- A destination that has not committed, with the labels it has noted as installed. -/
structure DestOpen (start : End) (prepared : PreparedTransfer) (row : TxRow) (here : End) : Prop where
  held : SameHeld start.ledger here.ledger
  tx_eq : here.ledger.tx prepared.bundle.id = some row
  hash_eq : row.packageHash = sha256 prepared.package
  container : Extended start.container prepared.bundle.secretEntries row.installed here.container

/-- Some row of an uncommitted destination, with a state of which `P` holds. -/
abbrev OpenWith (start : End) (prepared : PreparedTransfer) (P : TxState → Prop) (here : End) : Prop :=
  ∃ row, DestOpen start prepared row here ∧ P row.state

/-- **Before the destination has committed.** -/
structure Undecided (start : Pair) (prepared : PreparedTransfer) (here : Pair) : Prop where
  source : SourceKept start.source prepared here.source
  dest : here.dest = start.dest ∨ ∃ row, DestOpen start.dest prepared row here.dest
    ∧ row.state.settled = false

/-- A slot under the label of an entry: one that was there before, with the same encryption key, or one
with the keys of the entry. -/
def Filled (start : Container) (entry : BundleEntry) (container : Container) : Prop :=
  ∃ slot, container.slot entry.label = some slot
    ∧ ((start.slot entry.label = some slot ∧ slot.publicKeys.1 = entry.encPublic)
      ∨ (start.slot entry.label = none ∧ slot.publicKeys = (entry.encPublic, entry.signPublic)))

structure DestDone (start : End) (prepared : PreparedTransfer) (here : End) : Prop where
  row : ∃ row, here.ledger.tx prepared.bundle.id = some row ∧ row.packageHash = sha256 prepared.package
    ∧ row.state.settled = true
  active : ∀ entry ∈ prepared.bundle.secretEntries, here.ledger.possession entry.label = some .active
  filled : ∀ entry ∈ prepared.bundle.secretEntries, Filled start.container entry here.container

/-- **From the destination's commit on.** -/
structure Decided (start : Pair) (prepared : PreparedTransfer) (here : Pair) : Prop where
  source : ∃ row, SourceLetting start.source prepared row here.source
  dest : DestDone start.dest prepared here.dest

/-! ## §3. Containers that grow. -/

variable {entry : BundleEntry}

section Extended

omit [Crypto]

theorem Filled.gains (h : Filled start entry container) (hgains : Gains container container') :
    Filled start entry container' := by
  obtain ⟨slot, hslot, hkeys⟩ := h
  exact ⟨slot, hgains.slot_some hslot, hkeys⟩

variable {start container : Container}

theorem Extended.nil : Extended start entries [] start :=
  ⟨nofun, [], by rw [append_nil], nofun⟩

variable {label : String} {slot : SlotRecord} (h : Extended start entries labels container)

include h

theorem Extended.slot_some (hslot : start.slot label = some slot) : container.slot label = some slot := by
  obtain ⟨extra, rfl, -⟩ := h.slots
  have hgains : Gains start { start with slots := start.slots ++ extra } := ⟨rfl, rfl, extra, rfl⟩
  exact hgains.slot_some hslot

theorem Extended.slot_cases (hslot : container.slot label = some slot) :
    start.slot label = some slot ∨ (start.slot label = none ∧ ∃ entry ∈ entries, entry.label = label
        ∧ slot.publicKeys = (entry.encPublic, entry.signPublic)) := by
  cases hstart : start.slot label with
  | some found => exact .inl ((h.slot_some hstart).symm.trans hslot)
  | none =>
    right
    obtain ⟨extra, rfl, hextra⟩ := h.slots
    obtain ⟨hmem, hlabel⟩ := Container.slot_some hslot
    have hnew : slot ∈ extra := by
      rcases mem_append.mp hmem with hold | hnew
      · exact absurd hlabel (Container.ne_of_slot_none hstart hold)
      · exact hnew
    obtain ⟨-, entry, hentry, hentryLabel, hkeys⟩ := hextra slot hnew
    exact ⟨rfl, entry, hentry, hentryLabel.symm.trans hlabel, hkeys⟩

theorem Extended.start_none (hslot : container.slot label = none) : start.slot label = none :=
  Option.eq_none_iff_forall_ne_some.mpr fun found hstart => by
    cases hslot.symm.trans (h.slot_some hstart)

theorem Extended.note (hnone : start.slot label = none) (hvalid : validateSlotLabel label = .ok ()) :
    Extended start entries (labels ++ [label]) container := by
  refine ⟨fun other hother => ?_, ?_⟩
  · rcases mem_snoc.mp hother with hother | rfl
    · exact h.fresh other hother
    · exact ⟨hnone, hvalid⟩
  · obtain ⟨extra, hcontainer, hextra⟩ := h.slots
    exact ⟨extra, hcontainer, fun slot hslot =>
      ⟨mem_append_left _ (hextra slot hslot).1, (hextra slot hslot).2⟩⟩

theorem Extended.withSlot (hlabel : slot.label ∈ labels) (hentry : entry ∈ entries)
    (hfills : entry.fills slot) : Extended start entries labels (container.withSlot slot) := by
  obtain ⟨extra, rfl, hextra⟩ := h.slots
  refine ⟨h.fresh, extra ++ [slot], by simp [Container.withSlot], fun other hother => ?_⟩
  rcases mem_snoc.mp hother with hother | rfl
  · exact hextra other hother
  · exact ⟨hlabel, entry, hentry, hfills⟩

theorem Extended.sheds (hsheds : Sheds labels container container') :
    Extended start entries labels container' := by
  obtain ⟨extra, rfl, hextra⟩ := h.slots
  obtain ⟨gone, hgone, hslots⟩ := hsheds.slots
  refine ⟨h.fresh, extra.filter fun slot => slot.label ∉ gone, ?_, fun slot hslot =>
    hextra slot (mem_filter.mp hslot).1⟩
  have hkept : start.slots.filter (fun slot => slot.label ∉ gone) = start.slots := by
    rw [filter_eq_self]
    intro slot hslot
    rw [decide_eq_true_eq]
    intro hmem
    exact Container.ne_of_slot_none (h.fresh slot.label (hgone slot.label hmem)).1 hslot rfl
  rw [filter_append, hkept] at hslots
  have hkey : container'.deviceId = start.deviceId ∧ container'.verifyKey = start.verifyKey :=
    DeviceKey.mk.inj hsheds.key_eq
  have hsecret : container'.deviceSecret = start.deviceSecret := hsheds.secret_eq
  cases container'
  obtain ⟨rfl, rfl⟩ := hkey
  obtain rfl := hsecret
  obtain rfl := hslots
  rfl

theorem Extended.eq_start (hnone : ∀ label ∈ labels, container.slot label = none) :
    container = start := by
  obtain ⟨extra, rfl, hextra⟩ := h.slots
  cases extra with
  | nil => rw [append_nil]
  | cons slot extra =>
    have hgone := hnone slot.label (hextra slot (.head _)).1
    exact absurd rfl (Container.ne_of_slot_none hgone (by simp))

end Extended

/-! ## §4. The destination's steps. -/

section Destination

variable {start here : End} {giver : End} {prepared : PreparedTransfer} {source : DeviceKey}
  {row : TxRow} {passphrases : String → Option String} {state : TxState} {allow : Bool}

theorem DestOpen.setState (h : DestOpen start prepared row here) (state : TxState) :
    DestOpen start prepared { row with state }
      { here with ledger := here.ledger.withState prepared.bundle.id state } :=
  ⟨sameHeld_withState h.held, tx_withState_of_some h.tx_eq, h.hash_eq, h.container⟩

theorem stageDestination_opens (hpacked : giver.Packed request prepared)
    (hnew : start.ledger.tx prepared.bundle.id = none) :
    Run.Ends (stageDestination source prepared.package allow) start
      (fun _ there => OpenWith start prepared (· = .transferred) there)
      fun there => there = start := by
  refine .look_bind (.check_bind rfl fun bundle hbundle => ?_)
  have hgenuine := openBundle_ok hbundle
  obtain rfl := openBundle_encode hpacked.encodes hbundle
  have hnotable : ∀ entry ∈ prepared.bundle.entries, Notable entry.label := fun entry hentry =>
    notable_of_valid (hgenuine.entries entry hentry).label_valid
  refine .require_bind rfl fun _ => .check_bind rfl fun _ _ => ?_
  have hrole : (start.ledger.txRole prepared.bundle.id).isSome = false := by
    unfold txRole
    rw [hnew]
    rfl
  rw [hrole]
  refine onLedger_ends rfl fun _ ledger hrun => ?_
  obtain ⟨-, rfl⟩ := insertTx_ok hrun
  refine ⟨stagedRow prepared.bundle prepared.package, ⟨⟨rfl, rfl⟩, ?_, rfl, ?_⟩, rfl⟩
  · exact (tx_withTx hnew).trans (if_pos rfl)
  · have hinstalled : (stagedRow prepared.bundle prepared.package).installed = [] := by
      refine detailList_formatDetail_installed (by decide) ?_ ?_ nofun
      all_goals
        intro label hlabel
        obtain ⟨entry, hentry, rfl⟩ := mem_map.mp hlabel
        exact hnotable entry (mem_filter.mp hentry).1
    rw [hinstalled]
    exact .nil

theorem noteInstalled_opens (h : DestOpen start prepared row here)
    (hnone : start.container.slot label = none) (hvalid : validateSlotLabel label = .ok ()) :
    Run.Ends (noteInstalled prepared.bundle.id (row.installed ++ [label])) here
      (fun _ there => there.container = here.container ∧ ∃ row', DestOpen start prepared row' there
        ∧ row'.state = row.state ∧ row'.installed = row.installed ++ [label])
      fun there => there = here := by
  refine .look_bind (.pass_bind (requireTx_of_some h.tx_eq) ?_)
  refine onLedger_ends rfl fun _ ledger hrun => ?_
  obtain rfl := Op.modify_ok hrun
  have hnoted := h.container.note hnone hvalid
  have hinstalled : TxRow.installed
      { row with detail := replaceDetailList row.detail "installed" (row.installed ++ [label]) }
      = row.installed ++ [label] :=
    detailList_replaceDetailList (by decide) (by decide)
      (fun other hother => notable_of_valid (hnoted.fresh other hother).2) row.detail
  refine ⟨rfl, _, ⟨⟨h.held.identities_eq, h.held.possessions_eq⟩, ?_, ?_, ?_⟩, ?_, hinstalled⟩
  · rw [tx_withDetail, if_pos rfl, h.tx_eq, Option.map_some]
  · exact h.hash_eq
  · rw [hinstalled]
    exact hnoted
  · rfl

/-- **Writing slots**: every entry gets a slot unless one with its encryption key is there. -/
theorem writeSlots_opens (hpacked : giver.Packed request prepared)
    (hgenuine : ∀ entry ∈ prepared.bundle.secretEntries, entry.Genuine)
    (hentries : ∀ entry ∈ entries, entry ∈ prepared.bundle.secretEntries)
    (h : DestOpen start prepared row here) (hinstalled : installed = row.installed) :
    Run.Ends (writeSlots prepared.bundle.id passphrases none entries installed written) here
      (fun _ there => Gains here.container there.container
        ∧ OpenWith start prepared (· = row.state) there
        ∧ ∀ entry ∈ entries, Filled start.container entry there.container)
      fun there => OpenWith start prepared (· = row.state) there := by
  subst hinstalled
  induction entries generalizing here row written with
  | nil =>
    exact .pure ⟨.refl _, ⟨row, h, rfl⟩, nofun⟩
  | cons entry entries ih =>
    have hrest := fun other hother => hentries other (mem_cons_of_mem entry hother)
    have hmem := hentries entry (.head _)
    have hhere : OpenWith start prepared (· = row.state) here := ⟨row, h, rfl⟩
    -- the rest of the loop, once this entry is filled
    have hgo : ∀ {there : End} {row' : TxRow} {written : Nat}, DestOpen start prepared row' there →
        row'.state = row.state → Gains here.container there.container →
        Filled start.container entry there.container →
        Run.Ends (writeSlots prepared.bundle.id passphrases none entries row'.installed written) there
          (fun _ after => Gains here.container after.container
            ∧ OpenWith start prepared (· = row.state) after
            ∧ ∀ other ∈ entry :: entries, Filled start.container other after.container)
          fun after => OpenWith start prepared (· = row.state) after := by
      intro there row' written hopen hstate hgains hfilled
      refine .mono (ih hrest hopen) ?_ ?_
      · rintro _ after ⟨hgains', ⟨row'', hopen', hstate'⟩, hfilled'⟩
        refine ⟨hgains.trans hgains', ⟨row'', hopen', hstate'.trans hstate⟩, fun other hother => ?_⟩
        rcases mem_cons.mp hother with rfl | hother
        · exact hfilled.gains hgains'
        · exact hfilled' other hother
      · rintro after ⟨row'', hopen', hstate'⟩
        exact ⟨row'', hopen', hstate'.trans hstate⟩
    unfold writeSlots
    rw [if_neg (by simp)]
    refine .look_bind ?_
    cases hslot : here.container.slot entry.label with
    | some found =>
      refine .check_bind hhere fun passphrase _ => ?_
      refine .check_bind hhere fun opened hopened => .require_bind hhere fun hkey => ?_
      refine hgo h rfl (.refl _) ?_
      obtain ⟨hopened, -, -⟩ := Container.openSlot_ok hopened
      refine ⟨opened, hopened, ?_⟩
      rcases h.container.slot_cases hopened with hold | ⟨hnone, other, hother, hlabel, hkeys⟩
      · exact .inl ⟨hold, by simpa using hkey⟩
      · exact .inr ⟨hnone, hkeys.trans (hpacked.same_keys hmem hother hlabel)⟩
    | none =>
      have hnone := h.container.start_none hslot
      have hvalid := (hgenuine entry hmem).label_valid
      refine .check_bind hhere fun passphrase _ => ?_
      refine .bind (M := fun _ there => there.container = here.container
        ∧ ∃ row', DestOpen start prepared row' there ∧ row'.state = row.state
          ∧ row'.installed = (if row.installed.contains entry.label then row.installed
            else row.installed ++ [entry.label]) ∧ entry.label ∈ row'.installed) ?_ ?_
      · cases hcontains : row.installed.contains entry.label with
        | true =>
          refine .when (fun hnot => absurd hnot (by simp)) fun _ => ⟨rfl, row, h, rfl, rfl, ?_⟩
          simpa using hcontains
        | false =>
          refine .when (fun _ => ?_) fun hnot => absurd hnot (by simp)
          refine .mono (noteInstalled_opens h hnone hvalid) ?_ fun there hthere => ?_
          · rintro _ there ⟨hcontainer, row', hopen, hstate, hinstalled⟩
            exact ⟨hcontainer, row', hopen, hstate, hinstalled, by rw [hinstalled]; simp⟩
          · exact hthere ▸ hhere
      · rintro _ there ⟨hcontainer, row', hopen, hstate, hinstalled, hlabel⟩
        have hthere : OpenWith start prepared (· = row.state) there :=
          ⟨row', hopen, hstate⟩
        refine .check_bind hthere fun secrets hsecrets => ?_
        refine .bind (M := fun _ after => Gains here.container after.container
          ∧ DestOpen start prepared row' after ∧ Filled start.container entry after.container)
          (onContainer_ends hthere fun container hinstall => ?_) ?_
        · obtain ⟨habsent, -, rfl⟩ := Container.installSlot_ok hinstall
          have hkeys := (hgenuine entry hmem).secrets_match secrets.1 secrets.2 (okOr_ok hsecrets)
          have hpublic : SlotRecord.publicKeys ⟨entry.label, passphrase, secrets.1, secrets.2⟩
              = (entry.encPublic, entry.signPublic) := Prod.ext hkeys.1 hkeys.2
          refine ⟨?_, ⟨hopen.held, hopen.tx_eq, hopen.hash_eq, ?_⟩, ?_⟩
          · rw [← hcontainer]
            exact .withSlot _ _
          · exact hopen.container.withSlot hlabel hmem ⟨rfl, hpublic⟩
          · refine ⟨⟨entry.label, passphrase, secrets.1, secrets.2⟩, ?_, .inr ⟨hnone, hpublic⟩⟩
            exact (Container.slot_withSlot habsent).trans (if_pos rfl)
        · rintro _ after ⟨hgains, hopen', hfilled⟩
          rw [← hinstalled]
          exact hgo hopen' hstate hgains hfilled

theorem writeDestinationSlots_opens (hpacked : giver.Packed request prepared)
    (h : DestOpen start prepared row here) (hopen : row.state.settled = false) :
    Run.Ends (writeDestinationSlots source prepared.package passphrases none) here
      (fun _ there => OpenWith start prepared (·.settled = false) there
        ∧ ∀ entry ∈ prepared.bundle.secretEntries, Filled start.container entry there.container)
      fun there => OpenWith start prepared (·.settled = false) there := by
  have hhere : OpenWith start prepared (·.settled = false) here := ⟨row, h, hopen⟩
  refine .look_bind (.check_bind hhere fun bundle hbundle => ?_)
  have hgenuine := openBundle_ok hbundle
  obtain rfl := openBundle_encode hpacked.encodes hbundle
  refine .pass_bind (requireTx_of_some h.tx_eq) (.require_bind hhere fun _ => ?_)
  refine .bind (.mono setState_ends (fun _ _ hthere => hthere) fun there hthere => ?_) ?_
  · exact hthere ▸ hhere
  · rintro _ there rfl
    have hwriting := h.setState .writing
    refine .mono (writeSlots_opens hpacked (fun entry hentry =>
      hgenuine.entries entry (mem_filter.mp hentry).1) (fun _ hentry => hentry) hwriting rfl) ?_ ?_
    · rintro _ after ⟨-, ⟨row', hopen', hstate⟩, hfilled⟩
      exact ⟨⟨row', hopen', by rw [hstate]; rfl⟩, hfilled⟩
    · rintro after ⟨row', hopen', hstate⟩
      exact ⟨row', hopen', by rw [hstate]; rfl⟩

/-- **Committing**: from then on the destination has what was handed over. -/
theorem commitDestinationRows_done (hpacked : giver.Packed request prepared)
    (h : DestOpen start prepared row here) (hopen : row.state.settled = false)
    (hfilled : ∀ entry ∈ prepared.bundle.secretEntries, Filled start.container entry here.container) :
    Run.Ends (commitDestinationRows source prepared.package allow) here
      (fun _ there => DestDone start prepared there) fun there => there = here := by
  refine .look_bind (.check_bind rfl fun bundle hbundle => ?_)
  obtain rfl := openBundle_encode hpacked.encodes hbundle
  refine .pass_bind (requireTx_of_some h.tx_eq) (.require_bind rfl fun _ => ?_)
  split
  next hcommitted =>
    rw [hcommitted] at hopen
    exact absurd hopen (by decide)
  next =>
    refine .require_bind rfl fun _ => onLedger_ends rfl fun _ ledger hrun => ?_
    obtain ⟨-, -, htaken, mid, hmid, hledger⟩ :=
      commitBundle_ok (P := fun _ => True) (fun _ _ => trivial) hrun
    refine ⟨?_, fun entry hentry => ?_, hfilled⟩
    · refine ⟨{ row with state := .destinationCommitted }, ?_, h.hash_eq, rfl⟩
      show ledger.tx _ = _
      rw [hledger]
      refine tx_withState_of_some ?_
      unfold tx
      rw [hmid]
      exact h.tx_eq
    · exact (htaken entry (mem_filter.mp hentry).1).possession (mem_filter.mp hentry).2

variable (h : DestDone start prepared here)

include h

theorem DestDone.setState (hsettled : state.settled) :
    DestDone start prepared { here with ledger := here.ledger.withState prepared.bundle.id state } := by
  obtain ⟨row, hrow, hhash, -⟩ := h.row
  exact ⟨⟨_, tx_withState_of_some hrow, hhash, hsettled⟩, h.active, h.filled⟩

theorem setState_done (hsettled : state.settled) :
    Run.Ends (onLedger (setState prepared.bundle.id state)) here
      (fun _ there => DestDone start prepared there) fun there => DestDone start prepared there := by
  refine .mono setState_ends ?_ fun there hthere => hthere ▸ h
  rintro _ there rfl
  exact h.setState hsettled

theorem acknowledge_done :
    Run.Ends (acknowledge prepared.bundle.id) here
      (fun _ there => DestDone start prepared there) fun there => DestDone start prepared there := by
  refine .look_bind (.check_bind h fun row _ => ?_)
  split
  · exact .pure h
  · exact .require_bind h fun _ => setState_done h rfl

end Destination

/-! ## §5. Both ends. -/

section Both

variable {start here : Pair} {prepared : PreparedTransfer} {row : TxRow}

theorem undoInstalled_open {start here : End} (h : DestOpen start prepared row here) :
    Run.Ends (undoInstalled prepared.bundle.id) here
      (fun _ there => DestOpen start prepared { row with state := .aborted } there
        ∧ there.container = start.container)
      fun there => DestOpen start prepared row there := by
  refine .look_bind ?_
  rw [h.tx_eq]
  have hshed : ∀ {there : End}, Stripped row.installed here there → DestOpen start prepared row there := by
    intro there hthere
    exact ⟨hthere.ledger ▸ h.held, hthere.ledger ▸ h.tx_eq, h.hash_eq, h.container.sheds hthere.container⟩
  refine .bind (.mono (removeSlots_ends fun _ hlabel => hlabel) (fun _ _ hthere => hthere)
    fun there hthere => hshed hthere) ?_
  rintro _ there ⟨hthere, hnone⟩
  have hopen := hshed hthere
  refine .mono setState_ends ?_ fun after hafter => hafter ▸ hopen
  rintro _ after rfl
  exact ⟨hopen.setState .aborted, hopen.container.eq_start hnone⟩

/-- **Aborting** what has not been decided. -/
theorem abortTransfer_undecided (h : Undecided start prepared here)
    (hnew : start.dest.ledger.tx prepared.bundle.id = none) :
    Run.Ends (abortTransfer prepared.bundle.id) here
      (fun _ there => Undecided start prepared there ∧ there.dest.container = start.dest.container)
      fun there => Undecided start prepared there := by
  refine .look_bind (.require_bind h fun _ => ?_)
  refine .bind (M := fun _ there => Undecided start prepared there
    ∧ there.dest.container = start.dest.container) (.on ?_) ?_
  · rcases h.dest with hdest | ⟨row, hopen, hstate⟩
    · have hnone : here.dest.ledger.tx prepared.bundle.id = none := by
        rw [hdest]
        exact hnew
      refine .look_bind ?_
      rw [hnone]
      exact .pure ⟨h, by rw [hdest]⟩
    · refine .mono (undoInstalled_open hopen) ?_ ?_
      · rintro _ there ⟨hthere, hcontainer⟩
        exact ⟨⟨h.source, .inr ⟨_, hthere, rfl⟩⟩, hcontainer⟩
      · intro there hthere
        exact ⟨h.source, .inr ⟨row, hthere, hstate⟩⟩
  · rintro _ there ⟨hthere, hcontainer⟩
    refine .look_bind (.when (fun _ => .on ?_) fun _ => ⟨hthere, hcontainer⟩)
    refine .mono setState_ends ?_ ?_
    · rintro _ after rfl
      exact ⟨⟨hthere.source.setState, hthere.dest⟩, hcontainer⟩
    · rintro after rfl
      exact hthere

theorem DestDone.raised {start here there : End} (h : DestDone start prepared here)
    (hraised : Shifts Raised Eq here there) : DestDone start prepared there := by
  obtain ⟨htransactions, hpossession⟩ := hraised.ledger.kept
  obtain ⟨row, hrow, hrest⟩ := h.row
  refine ⟨⟨row, ?_, hrest⟩, fun entry hentry => ?_, fun entry hentry => ?_⟩
  · unfold tx at hrow ⊢
    rwa [htransactions]
  · rw [hpossession]
    exact h.active entry hentry
  · rw [← hraised.container]
    exact h.filled entry hentry

def Finalized (start : Pair) (prepared : PreparedTransfer) (here : Pair) : Prop :=
  (∃ row, SourceLetting start.source prepared row here.source
    ∧ (row.state = .sourceFinalized ∨ row.state = .completed) ∧ LetGo prepared here.source)
    ∧ DestDone start.dest prepared here.dest

theorem Finalized.decided (h : Finalized start prepared here) : Decided start prepared here := by
  obtain ⟨⟨row, hletting, -⟩, hdest⟩ := h
  exact ⟨⟨row, hletting⟩, hdest⟩

section

variable (h : Decided start prepared here)

include h

theorem retireSourceMaterial_finalizes (hletting : SourceLetting start.source prepared row here.source)
    (hfinal : row.state ≠ .sourceFinalized) (hcompleted : row.state ≠ .completed) :
    Run.Ends (retireSourceMaterial prepared.bundle.id) here
      (fun _ there => Finalized start prepared there) fun there => Decided start prepared there := by
  obtain ⟨hprepared, hheld⟩ := hletting.kept hfinal hcompleted
  obtain ⟨dest, hdest, hhash, hsettled⟩ := h.dest.row
  refine .look_bind (.pass_bind (requireTx_of_some hdest) (.require_bind h fun _ => ?_))
  refine .pass_bind (requireTx_of_some hletting.tx_eq) ?_
  rw [if_neg (not_not.mpr (hletting.own.hash_eq.trans hhash.symm))]
  -- the source stays unretired until its transaction commits
  have hunretired : ∀ {there : Pair}, here.source.ledger = there.source.ledger →
      DestDone start.dest prepared there.dest → Decided start prepared there := by
    intro there hsource hdone
    exact ⟨⟨row, hsource ▸ hletting.tx_eq, hletting.own, .inl ⟨hprepared, hsource ▸ hheld⟩⟩, hdone⟩
  refine .on_bind (scrubMovedSlots_ends hletting.tx_eq) (fun _ hthere => hunretired hthere.ledger h.dest) ?_
  rintro _ there ⟨hstripped, hgone⟩
  refine .look_bind (.bind (.mono retireLabels_ends (fun _ _ hafter => hafter)
    fun after hafter => ?_) ?_)
  · exact hunretired (by rw [hafter.source, hstripped.ledger]) (h.dest.raised hafter.dest)
  · rintro pending after ⟨hretired, hraises⟩
    have hdone := h.dest.raised hraises.dest
    refine .on (onLedger_ends (hunretired (by rw [hraises.source, hstripped.ledger]) hdone)
      fun _ ledger hrun => ?_)
    obtain ⟨_, mid, hmodify, hrun⟩ := Op.bind_ok hrun
    obtain rfl := Op.modify_ok hmodify
    obtain ⟨-, rfl⟩ := setState_ok hrun
    obtain ⟨htransactions, hghosts⟩ := retireAll_ghosts hretired
    have hrow : mid.tx prepared.bundle.id = some row := by
      unfold tx
      rw [htransactions, ← hstripped.ledger]
      exact hletting.tx_eq
    have hletGo : LetGo prepared { after.source with
        ledger := mid.withState prepared.bundle.id .sourceFinalized } := by
      intro hmove label hlabel
      refine ⟨hghosts label (.inr ⟨hletting.own.operation_eq.trans hmove, ?_⟩), ?_⟩
      · rw [hletting.own.included_eq]
        exact hlabel
      · show after.source.container.slot label = none
        rw [hraises.source]
        refine hgone label ?_
        rw [hletting.own.moved_eq, if_pos hmove]
        exact hlabel
    exact ⟨⟨_, ⟨tx_withState_of_some hrow, { hletting.own with }, .inr ⟨.inl rfl, hletGo⟩⟩, .inl rfl,
      hletGo⟩, hdone⟩

theorem letGo_finalizes (hletting : SourceLetting start.source prepared row here.source)
    (hcompleted : row.state ≠ .completed) :
    Run.Ends (letGo prepared.bundle.id row.state) here
      (fun _ there => Finalized start prepared there) fun there => Decided start prepared there := by
  unfold letGo
  split
  next hfinal => exact retireSourceMaterial_finalizes h hletting hfinal hcompleted
  next hfinal =>
    -- the ghosts are recorded, so only slots can be left
    have hfinal := not_not.mp hfinal
    obtain ⟨-, hletGo⟩ := hletting.letGo (by rw [hfinal]; decide)
    have hscrubbed : ∀ {there : End}, Stripped row.moved here.source there →
        Finalized start prepared { here with source := there } := by
      intro there ⟨hledger, hsheds⟩
      have hletGo' : LetGo prepared there := by
        intro hmove label hlabel
        obtain ⟨hghost, hnone⟩ := hletGo hmove label hlabel
        exact ⟨hledger ▸ hghost, hsheds.slot_none hnone⟩
      exact ⟨⟨row, ⟨hledger ▸ hletting.tx_eq, hletting.own, .inr ⟨.inl hfinal, hletGo'⟩⟩, .inl hfinal, hletGo'⟩,
        h.dest⟩
    exact .on (.mono (scrubMovedSlots_ends hletting.tx_eq) (fun _ _ hthere => hscrubbed hthere.1)
      fun there hthere => (hscrubbed hthere).decided)

/-- **Finalizing** what has been decided. -/
theorem finalizeSource_decided :
    Run.Ends (finalizeSource prepared.bundle.id) here
      (fun _ there => Finalized start prepared there) fun there => Decided start prepared there := by
  obtain ⟨row, hletting⟩ := h.source
  refine .look_bind (.pass_bind (requireTx_of_some hletting.tx_eq) ?_)
  split
  next hcompleted =>
    exact .pure ⟨⟨row, hletting, hletting.letGo (by rw [hcompleted]; decide)⟩, h.dest⟩
  next hcompleted =>
    refine .bind (letGo_finalizes h hletting hcompleted) fun _ there hthere => ?_
    refine .bind (M := fun _ after => Finalized start prepared after) ?_ ?_
    · refine .ignore (.on (.mono (setState_done hthere.2 rfl) ?_ ?_))
      · exact fun _ after hafter => ⟨hthere.1, hafter⟩
      · exact fun after hafter => ⟨⟨hthere.1, hafter⟩, Finalized.decided ⟨hthere.1, hafter⟩⟩
    · intro _ after hafter
      obtain ⟨⟨row', hletting', -, hletGo⟩, hdone⟩ := hafter
      refine .on (.mono setState_ends ?_ ?_)
      · rintro _ last rfl
        exact ⟨⟨_, ⟨tx_withState_of_some hletting'.tx_eq, { hletting'.own with },
          .inr ⟨.inr rfl, hletGo⟩⟩, .inr rfl, hletGo⟩, hdone⟩
      · rintro last rfl
        exact ⟨⟨row', hletting'⟩, hdone⟩

end

/-! ## §6. The whole transfer. -/

def InPhase (start : Pair) (prepared : PreparedTransfer) (here : Pair) : Prop :=
  Undecided start prepared here ∨ Decided start prepared here

theorem deliver_phase (hpacked : start.source.Packed request prepared)
    (hnew : start.dest.ledger.tx prepared.bundle.id = none)
    (hsource : SourceKept start.source prepared here.source)
    (hrow : here.source.ledger.tx prepared.bundle.id = some row) (hprepared : row.state = .prepared)
    (hdest : here.dest = start.dest) :
    Run.Ends (deliver source request prepared) here
      (fun _ there => Decided start prepared there) (InPhase start prepared) := by
  have hundecided : ∀ {dest : End}, (∃ row, DestOpen start.dest prepared row dest
      ∧ row.state.settled = false) → InPhase start prepared { here with dest } :=
    fun hopen => .inl ⟨hsource, .inr hopen⟩
  have hdecided : ∀ {dest : End}, DestDone start.dest prepared dest →
      Decided start prepared { here with dest } := by
    intro dest hdone
    obtain ⟨found, hfound, hown, -⟩ := hsource.row
    rw [hrow] at hfound
    cases hfound
    exact ⟨⟨row, hrow, hown, .inl ⟨hprepared, hsource.held⟩⟩, hdone⟩
  -- staging
  refine .on_bind (by rw [hdest]; exact stageDestination_opens hpacked hnew)
    (fun _ hsame => .inl ⟨hsource, .inl hsame⟩) ?_
  rintro _ dest ⟨row, hopen, hstate⟩
  -- writing
  refine .on_bind (writeDestinationSlots_opens hpacked hopen (by rw [hstate]; rfl))
    (fun _ => hundecided) ?_
  rintro _ dest ⟨⟨row, hopen, hstate⟩, hfilled⟩
  -- committing
  refine .on_bind (commitDestinationRows_done hpacked hopen hstate hfilled) ?_ ?_
  · rintro _ rfl
    exact hundecided ⟨row, hopen, hstate⟩
  intro _ dest hdone
  refine .on_bind (acknowledge_done hdone) (fun _ hdone => .inr (hdecided hdone)) ?_
  intro _ dest hdone
  exact .mono (finalizeSource_decided (hdecided hdone)) (fun _ _ h => h.decided)
    fun _ h => .inr h

theorem Decided.committed (h : Decided start prepared here) :
    here.dest.ledger.destinationCommitted prepared.bundle.id := by
  obtain ⟨row, hrow, -, hsettled⟩ := h.dest.row
  unfold destinationCommitted txState
  rw [hrow]
  exact hsettled

/-- **Where a transfer can stop.**  It has not begun, or it is in one of its phases. -/
theorem transfer_phase (hnew : start.dest.ledger.tx request.txId = none) :
    Run.Ends (transfer request) start (fun _ there => ∃ prepared, start.source.Packed request prepared
        ∧ (∀ label ∈ prepared.secretLabels, start.source.ledger.possession label = some .active)
        ∧ InPhase start prepared there)
      fun there => there = start ∨ ∃ prepared, start.source.Packed request prepared
        ∧ (∀ label ∈ prepared.secretLabels, start.source.ledger.possession label = some .active)
        ∧ InPhase start prepared there := by
  refine .look_bind (.on_bind prepare_ends ?_ ?_)
  · rintro _ rfl
    exact .inl rfl
  rintro prepared _ ⟨hpacked, hactive, hnone, rfl⟩
  rw [← hpacked.id_eq] at hnew
  have hrow : (start.source.ledger.withTx prepared.row).tx prepared.bundle.id = some prepared.row :=
    (tx_withTx hnone).trans (if_pos rfl)
  have hsource : SourceKept start.source prepared
      { start.source with ledger := start.source.ledger.withTx prepared.row } :=
    ⟨⟨rfl, rfl⟩, rfl, prepared.row, hrow, ⟨rfl, rfl, hpacked.row_included⟩, .inl rfl⟩
  refine .bind (M := fun _ there => InPhase start prepared there)
    (.rescue (M := InPhase start prepared)
      (.mono (deliver_phase hpacked hnew hsource hrow rfl rfl) (fun _ _ h => .inr h) fun _ h => h)
      (fun there hthere => .inr ⟨prepared, hpacked, hactive, hthere⟩) ?_) ?_
  · -- the failed transfer is aborted unless the destination has committed
    intro e there hthere
    refine .look_bind (.bind (M := fun _ after => InPhase start prepared after)
      (.when (fun hopen => ?_) fun _ => hthere) fun _ after hafter =>
        .check (.inr ⟨prepared, hpacked, hactive, hafter⟩) fun _ h => absurd h (by simp))
    rcases hthere with hundecided | hdecided
    · refine .ignore (.mono (abortTransfer_undecided hundecided hnew) ?_ ?_)
      · exact fun _ after hafter => .inl hafter.1
      · exact fun after hafter => ⟨.inl hafter, .inr ⟨prepared, hpacked, hactive, .inl hafter⟩⟩
    · rw [hdecided.committed] at hopen
      cases hopen
  · exact fun _ after hafter => .pure ⟨prepared, hpacked, hactive, hafter⟩

end Both

end Phases

end KeyQuorum.Transfer
