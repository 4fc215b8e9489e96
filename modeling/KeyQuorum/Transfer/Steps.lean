/-
  **WHAT EACH STEP OF A TRANSFER DOES, WHEREVER THE POWER FAILS.**

  A step of a destination, or a `prepare`, changes the ledger and may add
  slots.  Only the steps that end a transaction remove any: finalizing
  removes the labels handed over at the source, aborting the labels
  installed at the destination.
-/
import KeyQuorum.Transfer.Protocol

namespace KeyQuorum.Transfer

open List Foundation Ledger

/-! ## §1. Containers. -/

structure Gains (container container' : Container) : Prop where
  key_eq : container'.key = container.key
  secret_eq : container'.deviceSecret = container.deviceSecret
  slots : ∃ extra, container'.slots = container.slots ++ extra

structure Sheds (labels : List String) (container container' : Container) : Prop where
  key_eq : container'.key = container.key
  secret_eq : container'.deviceSecret = container.deviceSecret
  slots : ∃ gone : List String, (∀ label ∈ gone, label ∈ labels)
    ∧ container'.slots = container.slots.filter fun slot => slot.label ∉ gone

theorem Gains.refl (container : Container) : Gains container container := ⟨rfl, rfl, [], by simp⟩

variable {a : Container} {label : String} {m : Op Ledger Error α} {Q : End → Prop}

theorem Gains.trans (hab : Gains a b) (hbc : Gains b c) : Gains a c := by
  obtain ⟨extra, hextra⟩ := hab.slots
  obtain ⟨extra', hextra'⟩ := hbc.slots
  exact ⟨hbc.key_eq.trans hab.key_eq, hbc.secret_eq.trans hab.secret_eq, extra ++ extra',
    by rw [hextra', hextra, append_assoc]⟩

instance : IsPreorder Container Gains where
  refl := .refl
  trans _ _ _ := .trans

theorem Gains.withSlot (container : Container) (slot : SlotRecord) :
    Gains container (container.withSlot slot) := ⟨rfl, rfl, [slot], rfl⟩

theorem Sheds.refl (labels : List String) (container : Container) : Sheds labels container container :=
  ⟨rfl, rfl, [], by simp, by simp⟩

variable {labels : List String} {here : End} {state : TxState}

theorem Sheds.trans (hab : Sheds labels a b) (hbc : Sheds labels b c) : Sheds labels a c := by
  obtain ⟨gone, hgone, hslots⟩ := hab.slots
  obtain ⟨gone', hgone', hslots'⟩ := hbc.slots
  refine ⟨hbc.key_eq.trans hab.key_eq, hbc.secret_eq.trans hab.secret_eq, gone ++ gone', ?_, ?_⟩
  · intro label hlabel
    rcases mem_append.mp hlabel with hlabel | hlabel
    · exact hgone label hlabel
    · exact hgone' label hlabel
  · rw [hslots', hslots, filter_filter]
    refine filter_congr fun slot _ => ?_
    simp only [mem_append, not_or, Bool.decide_and]
    exact Bool.and_comm _ _

instance (labels : List String) : IsPreorder Container (Sheds labels) where
  refl := .refl labels
  trans _ _ _ := .trans

theorem Sheds.withoutSlot (h : label ∈ labels)
    (container : Container) : Sheds labels container (container.withoutSlot label) := by
  refine ⟨rfl, rfl, [label], by simpa using h, ?_⟩
  unfold Container.withoutSlot
  simp

theorem Sheds.slot_none (h : Sheds labels container container') (hnone : container.slot label = none) :
    container'.slot label = none := by
  obtain ⟨gone, -, hslots⟩ := h.slots
  unfold Container.slot
  rw [hslots, List.find?_eq_none]
  intro slot hslot
  simpa using Container.ne_of_slot_none hnone (mem_filter.mp hslot).1

/-! ## §2. Devices that take things in. -/

/-- A device whose ledger moves along `R` and whose container moves along `S`. -/
structure Shifts (R : Ledger → Ledger → Prop) (S : Container → Container → Prop) (here there : End) :
    Prop where
  ledger : R here.ledger there.ledger
  container : S here.container there.container

variable {R : Ledger → Ledger → Prop} {S : Container → Container → Prop} [IsPreorder Ledger R]
  [IsPreorder Container S]

instance : IsPreorder End (Shifts R S) where
  refl here := ⟨Std.Refl.refl here.ledger, Std.Refl.refl here.container⟩
  trans _ _ _ hab hbc := ⟨IsTrans.trans _ _ _ hab.ledger hbc.ledger,
    IsTrans.trans _ _ _ hab.container hbc.container⟩

/-- Any number of changes of the ledger, and slots added. -/
abbrev Moved (P : IdentityRow → Prop) : End → End → Prop := Shifts (Later P) Gains

/-- Changes of transactions only, and slots added. -/
abbrev Noted : End → End → Prop := Shifts TxLater Gains

theorem onLedger_ends (hQ : Q here)
    (h : ∀ a ledger, m here.ledger = (.ok a, ledger) → A a { here with ledger }) :
    Run.Ends (onLedger m) here A Q := by
  refine .commit hQ fun a there hrun => ?_
  obtain ⟨ledger, hledger, rfl⟩ := Op.zoom_ok hrun
  exact h a ledger hledger

theorem onLedger_no_error {a : α} (h : m here.ledger = (.ok a, ledger)) (left : Option Nat)
    (e : Error) :
    (onLedger m ⟨here, left⟩).1 ≠ .error (some e) :=
  Run.commit_no_error (Op.zoom_of_ok h) left e

theorem onContainer_ends (hQ : Q here)
    (h : ∀ container, change here.container = .ok container → A () { here with container }) :
    Run.Ends (onContainer change) here A Q := by
  refine .commit hQ fun u there hrun => ?_
  split at hrun
  next container hcontainer =>
    cases hrun
    exact h container hcontainer
  next => cases hrun

variable {there : End}

theorem Noted.moved (h : Noted here there) : Moved P here there :=
  ⟨h.ledger.later, h.container⟩

section Moved

variable {P : IdentityRow → Prop} {here : End} {m : Op Ledger Error α} {label passphrase : String}
  {encryptionSecret signingSecret : Digest}

theorem onLedger_shifts (h : ∀ a ledger, m here.ledger = (.ok a, ledger) → R here.ledger ledger) :
    Run.MovesFrom (Shifts R S) (onLedger m) here :=
  onLedger_ends (Std.Refl.refl here) fun a ledger hrun => ⟨h a ledger hrun, Std.Refl.refl _⟩

theorem installSlot_shifts :
    Run.MovesFrom (Shifts R Gains) (onContainer fun container =>
      container.installSlot label passphrase encryptionSecret signingSecret) here := by
  refine onContainer_ends (Std.Refl.refl here) fun container hrun => ⟨Std.Refl.refl here.ledger, ?_⟩
  obtain ⟨-, -, rfl⟩ := Container.installSlot_ok hrun
  exact .withSlot _ _

variable {tx : Id16} {source : DeviceKey} {package : Bytes}

theorem setState_later (hclosed : state.isOpen = false) (h : setState tx state ledger = (.ok u, ledger')) :
    TxLater ledger ledger' := by
  obtain ⟨-, rfl⟩ := setState_ok h
  exact .single (TxChange.state fun hopen => absurd (hclosed.symm.trans hopen) (by simp))

theorem setWriting_noted (hrow : here.ledger.tx tx = some row) (hopen : row.state.isOpen) :
    Run.MovesFrom Noted (onLedger (setState tx .writing)) here := by
  refine onLedger_shifts fun u ledger hrun => ?_
  obtain ⟨-, rfl⟩ := setState_ok hrun
  exact .single (TxChange.state fun _ => ⟨row, hrow, hopen⟩)

variable {allow : Bool}

/-- Changes of transactions that leave the state of one alone. -/
structure Annotates (tx : Id16) (ledger ledger' : Ledger) : Prop where
  later : TxLater ledger ledger'
  state_eq : ledger'.txState tx = ledger.txState tx

instance (tx : Id16) : IsPreorder Ledger (Annotates tx) where
  refl _ := ⟨.refl, rfl⟩
  trans _ _ _ hab hbc := ⟨hab.later.trans hbc.later, hbc.state_eq.trans hab.state_eq⟩

theorem noteInstalled_annotates (hlabels : ∀ label ∈ labels, ';' ∉ label.toList) :
    Run.MovesFrom (Shifts (Annotates tx) Gains) (noteInstalled tx labels) here := by
  refine .look_bind (.check_bind fun row hrow => ?_)
  refine onLedger_shifts fun u ledger hrun => ?_
  obtain rfl := Op.modify_ok hrun
  have hrow := requireTx_ok hrow
  refine ⟨.single (TxChange.installed hrow hlabels), ?_⟩
  show Option.map TxRow.state _ = Option.map TxRow.state _
  rw [tx_withDetail, if_pos rfl, hrow]
  rfl

variable [Crypto] [KeyPairs]

theorem enroll_moved (hP : ∀ id label keys, P (enrolledRow id label keys)) {id : Id16} :
    Run.MovesFrom (Moved P) (enroll id encryptionSecret signingSecret label passphrase) here := by
  have hkeys : ∀ {here : End} {keyType : KeyType} {publicKey : Digest},
      Run.MovesFrom (Moved P) (onLedger (ensureHardware label keyType publicKey)) here := by
    intro here keyType publicKey
    refine onLedger_shifts fun u ledger hrun => ?_
    obtain ⟨keys, rfl⟩ := ensureHardware_ok hrun
    exact .single (Change.keys here.ledger keys)
  refine Run.MovesFrom.check_bind fun _ _ => Run.MovesFrom.look_bind ?_
  refine Run.MovesFrom.bind (Run.MovesFrom.when fun _ => installSlot_shifts)
    fun _ there _ => ?_
  refine .look_bind (.check_bind fun slot _ => ?_)
  split
  · exact .require_bind fun _ => .pure _
  · refine .bind hkeys fun _ there _ => .bind hkeys fun _ there _ => ?_
    refine .bind (onLedger_shifts fun u ledger hrun => ?_) fun _ _ _ => .pure id
    obtain ⟨hid, hlabel, hheld, rfl⟩ := insertIdentity_ok hrun
    exact .single (Change.identity .active .first (hP id label slot.publicKeys) hid hlabel hheld)

theorem prepare_noted : Run.MovesFrom Noted (prepare request) here := by
  refine .check_bind fun _ _ => .check_bind fun _ _ => ?_
  refine .look_bind (.check_bind fun _ _ => ?_)
  split
  · exact .hang
  · refine .check_bind fun selected _ => .check_bind fun prepared _ => ?_
    refine .bind (onLedger_shifts fun u ledger hrun => ?_) fun _ _ _ => .pure prepared
    obtain ⟨hnew, rfl⟩ := insertTx_ok hrun
    exact .single (TxChange.tx hnew)

theorem stageDestination_noted :
    Run.MovesFrom Noted (stageDestination source package allow) here := by
  refine .look_bind (.check_bind fun bundle _ => ?_)
  refine .require_bind fun hrole => .check_bind fun _ _ => ?_
  split
  next hsome =>
    refine onLedger_shifts fun u ledger hrun => ?_
    obtain rfl := Op.modify_ok hrun
    refine .single (TxChange.restage ?_ rfl)
    -- the row is there, and it is not a destination's
    obtain ⟨role, hrole'⟩ := Option.isSome_iff_exists.mp hsome
    show here.ledger.txRole bundle.id = some .source
    cases role with
    | source => exact hrole'
    | destination => exact absurd hrole' (by simpa using hrole)
  next =>
    refine onLedger_shifts fun u ledger hrun => ?_
    obtain ⟨hnew, rfl⟩ := insertTx_ok hrun
    exact .single (TxChange.tx hnew)

omit [Crypto] in
theorem writeSlots_annotates (hentries : ∀ entry ∈ entries, ';' ∉ entry.label.toList)
    (hinstalled : ∀ label ∈ installed, ';' ∉ label.toList) :
    Run.MovesFrom (Shifts (Annotates tx) Gains)
      (writeSlots tx passphrases limit entries installed written) here := by
  induction entries generalizing here installed written with
  | nil => exact .pure ()
  | cons entry entries ih =>
    have hrest := fun other hother => hentries other (mem_cons_of_mem entry hother)
    unfold writeSlots
    split
    · exact .pure ()
    · refine .look_bind ?_
      split
      · refine .check_bind fun passphrase _ => .check_bind fun opened _ => ?_
        exact .require_bind fun _ => ih hrest hinstalled
      · refine .check_bind fun passphrase _ => ?_
        have hnoted : ∀ label ∈ (if installed.contains entry.label then installed
            else installed ++ [entry.label]), ';' ∉ label.toList := by
          intro label hlabel
          split at hlabel
          · exact hinstalled label hlabel
          · rcases mem_snoc.mp hlabel with hlabel | rfl
            · exact hinstalled label hlabel
            · exact hentries entry (.head _)
        refine .bind (.when fun _ => noteInstalled_annotates hnoted) fun _ there _ => ?_
        refine .check_bind fun secrets _ => ?_
        exact .bind installSlot_shifts fun _ there _ => ih hrest hnoted

theorem writeSlots_of_bundle (hbundle : openBundle package source deviceId = .ok bundle) (row : TxRow) :
    Run.MovesFrom (Shifts (Annotates tx) Gains)
      (writeSlots tx passphrases limit bundle.secretEntries row.installed written) here := by
  refine writeSlots_annotates (fun entry hentry => ?_) fun label hlabel => not_mem_of_mem_detailList hlabel
  have hgenuine := (openBundle_ok hbundle).entries entry (mem_filter.mp hentry).1
  exact (notable_of_valid hgenuine.label_valid).2.2

theorem writeDestinationSlots_noted :
    Run.MovesFrom Noted (writeDestinationSlots source package passphrases limit) here := by
  refine .look_bind (.check_bind fun bundle hbundle => ?_)
  refine .check_bind fun row hrow => .require_bind fun hstate => ?_
  have hopen : row.state.isOpen := by
    simp only [Bool.or_eq_true, decide_eq_true_eq] at hstate
    rcases hstate with hstate | hstate <;> rw [hstate] <;> rfl
  refine .bind (setWriting_noted (requireTx_ok hrow) hopen) fun _ there _ => ?_
  exact (writeSlots_of_bundle hbundle row).mono fun _ h => ⟨h.ledger.later, h.container⟩

theorem commitDestinationRows_moved
    (hP : ∀ bundle, openBundle package source here.container.deviceId = .ok bundle →
      ∀ entry ∈ bundle.entries, P entry.row) :
    Run.MovesFrom (Moved P) (commitDestinationRows source package allow) here := by
  refine .look_bind (.check_bind fun bundle hbundle => ?_)
  refine .check_bind fun row hrow => .require_bind fun _ => ?_
  split
  · exact .pure ()
  · refine .require_bind fun _ => onLedger_shifts fun u ledger hrun => ?_
    exact (commitBundle_ok (hP bundle hbundle) hrun).2.1

omit [Crypto] [KeyPairs] in
theorem acknowledge_shifts : Run.MovesFrom (Shifts TxLater S) (acknowledge tx) here := by
  refine .look_bind (.check_bind fun row _ => ?_)
  split
  · exact .pure ()
  · exact .require_bind fun _ => onLedger_shifts fun _ _ hrun => setState_later rfl hrun

/-- **A destination's steps, whatever they have in common.**  If each of them moves a device that meets
`C` along `R`, and `R` keeps `C`, then so does accepting a package. -/
structure Delivery (R : End → End → Prop) (C : End → Prop) (source : DeviceKey) (package : Bytes) :
    Prop where
  keeps : ∀ {here there}, R here there → C here → C there
  stage : ∀ {here} allow, C here → Run.MovesFrom R (stageDestination source package allow) here
  write : ∀ {here} passphrases limit, C here →
    Run.MovesFrom R (writeDestinationSlots source package passphrases limit) here
  commit : ∀ {here} allow, C here → Run.MovesFrom R (commitDestinationRows source package allow) here
  acknowledge : ∀ {here} tx, Run.MovesFrom R (acknowledge tx) here

section Delivery

variable {R : End → End → Prop} [IsPreorder End R] {source : DeviceKey}

theorem Delivery.installAndCommit (h : Delivery R C source package) (hC : C here)
    (passphrases : String → Option String) (allow : Bool) (tx : Id16) :
    Run.MovesFrom R (installAndCommit source package passphrases allow tx) here :=
  .bind (h.write passphrases none hC) fun _ _ hwritten =>
    .bind (h.commit allow (h.keeps hwritten hC)) fun _ _ _ => h.acknowledge tx

theorem Delivery.accept (h : Delivery R C source package) (hC : C here)
    (passphrases : String → Option String) (allow : Bool) :
    Run.MovesFrom R (acceptPackage source package passphrases allow) here := by
  refine .look_bind (.check_bind fun header _ => ?_)
  refine .require_bind fun _ => ?_
  split
  · split
    · exact .bind (.when fun _ => h.acknowledge header.id) fun _ _ _ => .pure _
    · refine .require_bind fun _ => ?_
      exact .bind (h.installAndCommit hC passphrases allow header.id) fun _ _ _ => .pure _
  · refine .bind (h.stage allow hC) fun _ _ hstaged => ?_
    exact .bind (h.installAndCommit (h.keeps hstaged hC) passphrases allow header.id)
      fun _ _ _ => .pure _

end Delivery

theorem acceptPackage_moved
    (hP : ∀ bundle, openBundle package source here.container.deviceId = .ok bundle →
      ∀ entry ∈ bundle.entries, P entry.row) :
    Run.MovesFrom (Moved P) (acceptPackage source package passphrases allow) here := by
  have hdelivery : Delivery (Moved P) (fun here =>
      ∀ bundle, openBundle package source here.container.deviceId = .ok bundle →
        ∀ entry ∈ bundle.entries, P entry.row) source package := by
    refine ⟨fun {here there} hmoved hP => ?_, fun _ _ => stageDestination_noted.mono fun _ => Noted.moved,
      fun _ _ _ => writeDestinationSlots_noted.mono fun _ => Noted.moved,
      fun _ hP => commitDestinationRows_moved hP, fun _ => acknowledge_shifts.mono fun _ => Noted.moved⟩
    rwa [show there.container.deviceId = here.container.deviceId from
      congrArg DeviceKey.deviceId hmoved.container.key_eq]
  exact hdelivery.accept hP passphrases allow

end Moved

/-! ## §3. Devices that let go. -/

def TxRow.moved (row : TxRow) : List String := if row.operation = .move then row.included else []

/-- Any number of changes of the ledger, and slots of these labels removed. -/
abbrev Released (P : IdentityRow → Prop) (labels : List String) : End → End → Prop :=
  Shifts (Later P) (Sheds labels)

/-- The ledger as it was, and slots of these labels removed. -/
abbrev Stripped (labels : List String) : End → End → Prop := Shifts Eq (Sheds labels)

section Released

variable {P : IdentityRow → Prop} {here : End} {labels : List String} {tx : Id16}
  {operation : TransferOp} {label : String} {ledger ledger' : Ledger}

theorem Shifts.released (h : Stripped labels here there) : Released P labels here there :=
  ⟨by rw [h.ledger], h.container⟩

theorem setState_released (hclosed : state.isOpen = false) :
    Run.MovesFrom (Released P labels) (onLedger (setState tx state)) here :=
  onLedger_shifts fun _ _ hrun => (setState_later hclosed hrun).later

theorem removeSlots_ends {labels all : List String} (hall : ∀ label ∈ labels, label ∈ all) :
    Run.Ends (removeSlots labels) here
      (fun _ there => Stripped all here there ∧ ∀ label ∈ labels, there.container.slot label = none)
      (Stripped all here) := by
  induction labels generalizing here with
  | nil => exact .pure ⟨Std.Refl.refl here, nofun⟩
  | cons first rest ih =>
    refine .look_bind (.bind (M := fun _ there => Stripped all here there
      ∧ there.container.slot first = none) ?_ ?_)
    · refine .when (fun _ => onContainer_ends (Std.Refl.refl here) fun container hrun => ?_) fun hnone => ?_
      · obtain rfl := Container.removeSlot_ok hrun
        refine ⟨⟨rfl, .withoutSlot (hall first (.head _)) _⟩, ?_⟩
        rw [Container.slot_withoutSlot, if_pos rfl]
      · exact ⟨Std.Refl.refl here, by simpa using hnone⟩
    · rintro _ there ⟨hthere, hfirst⟩
      refine .mono (ih fun label hlabel => hall label (mem_cons_of_mem first hlabel)) ?_
        fun after => IsTrans.trans here there after hthere
      rintro _ after ⟨hafter, hrest⟩
      exact ⟨IsTrans.trans here there after hthere hafter,
        forall_mem_cons.mpr ⟨hafter.container.slot_none hfirst, hrest⟩⟩

variable {row : TxRow} {id : Id16} {u : Unit}

theorem scrubMovedSlots_ends (hrow : here.ledger.tx tx = some row) :
    Run.Ends (scrubMovedSlots tx) here
      (fun _ there => Stripped row.moved here there
        ∧ ∀ label ∈ row.moved, there.container.slot label = none) (Stripped row.moved here) := by
  refine .look_bind (.pass_bind (requireTx_of_some hrow) ?_)
  unfold TxRow.moved
  split
  next hmove =>
    exact removeSlots_ends fun _ h => h
  next hmove =>
    exact .pure ⟨Std.Refl.refl here, nofun⟩

theorem scrubMovedSlots_released (hrow : here.ledger.tx tx = some row) :
    Run.MovesFrom (Released P row.moved) (scrubMovedSlots tx) here :=
  (scrubMovedSlots_ends hrow).mono (fun _ _ h => h.1.released) fun _ h => h.released

/-- **What finalizing does to one label.** -/
theorem retireLabel_ok (h : retireLabel operation label ledger = (.ok (id, target), ledger')) :
    ∃ row g, ledger.identityByLabel label = some row ∧ row.id = id ∧ ledger.generation? id = some g
      ∧ (operation = .move → target = g.next ∧ ledger' = ledger.withPossession id .ghost g.next)
      ∧ (operation = .copy → target = g ∧ ledger' = ledger) := by
  obtain ⟨row, hrow, h⟩ := Op.lift_bind_ok (Op.read_bind_ok h)
  obtain ⟨g, hg, h⟩ := Op.lift_bind_ok h
  have hlabel : ledger.identityByLabel label = some row := okOr_ok hrow
  cases operation with
  | move =>
    obtain ⟨_, mid, hset, h⟩ := Op.bind_ok h
    obtain ⟨-, rfl⟩ := setPossession_ok hset
    obtain ⟨hpair, rfl⟩ := Op.pure_ok h
    obtain ⟨rfl, rfl⟩ := Prod.mk.inj hpair
    exact ⟨row, g, hlabel, rfl, generationOf_ok hg, fun _ => ⟨rfl, rfl⟩, by simp⟩
  | copy =>
    obtain ⟨hpair, rfl⟩ := Op.pure_ok h
    obtain ⟨rfl, rfl⟩ := Prod.mk.inj hpair
    exact ⟨row, g, hlabel, rfl, generationOf_ok hg, by simp, fun _ => ⟨rfl, rfl⟩⟩

theorem retireLabel_later (h : retireLabel operation label ledger = (.ok retired, ledger')) :
    Later P ledger ledger' := by
  obtain ⟨row, g, -, -, hg, hmove, hcopy⟩ := retireLabel_ok h
  cases operation with
  | move =>
    obtain ⟨-, rfl⟩ := hmove rfl
    exact .single (Change.possession .ghost hg g.val_le_next)
  | copy =>
    obtain ⟨-, rfl⟩ := hcopy rfl
    exact .refl

theorem retireAll_later
    (h : retireAll operation labels ledger = (.ok u, ledger')) : Later P ledger ledger' := by
  induction labels generalizing ledger with
  | nil =>
    obtain ⟨-, rfl⟩ := Op.pure_ok h
    exact .refl
  | cons first rest ih =>
    obtain ⟨retired, mid, hfirst, h⟩ := Op.bind_ok h
    exact (retireLabel_later hfirst).trans (ih h)

theorem possession_withPossession {state : PossessionState} :
    (ledger.withPossession id state generation).possession label
      = (ledger.identityByLabel label).bind fun row =>
          if row.id = id then (ledger.possessions.find? row.id).map fun _ => state
          else (ledger.possessions.find? row.id).map PossessionRow.state := by
  show (ledger.identityByLabel label).bind _ = _
  congr 1
  funext row
  unfold withPossession
  rw [Table.find?_change]
  split
  · cases ledger.possessions.find? row.id <;> rfl
  · cases ledger.possessions.find? row.id <;> rfl

theorem retireAll_ghosts (h : retireAll operation labels ledger = (.ok u, ledger')) :
    ledger'.transactions = ledger.transactions
      ∧ ∀ label, ledger.possession label = some .ghost ∨ (operation = .move ∧ label ∈ labels) →
        ledger'.possession label = some .ghost := by
  induction labels generalizing ledger with
  | nil =>
    obtain ⟨-, rfl⟩ := Op.pure_ok h
    refine ⟨rfl, fun label hlabel => ?_⟩
    rcases hlabel with hlabel | ⟨-, hlabel⟩
    · exact hlabel
    · cases hlabel
  | cons first rest ih =>
    obtain ⟨⟨id, target⟩, mid, hfirst, h⟩ := Op.bind_ok h
    obtain ⟨htransactions, hghosts⟩ := ih h
    obtain ⟨row, g, hrow, hid, hg, hmove, hcopy⟩ := retireLabel_ok hfirst
    cases operation with
    | copy =>
      obtain ⟨-, rfl⟩ := hcopy rfl
      refine ⟨htransactions, fun label hlabel => hghosts label ?_⟩
      rcases hlabel with hlabel | ⟨hop, -⟩
      · exact .inl hlabel
      · cases hop
    | move =>
      obtain ⟨-, rfl⟩ := hmove rfl
      refine ⟨htransactions, fun label hlabel => hghosts label ?_⟩
      rw [possession_withPossession]
      rcases hlabel with hlabel | ⟨-, hlabel⟩
      · -- a ghost stays one
        left
        obtain ⟨found, hfound, hstate⟩ := Option.bind_eq_some_iff.mp hlabel
        obtain ⟨held, hheld, hstate⟩ := Option.bind_eq_some_iff.mp hstate
        rw [hfound, Option.bind_some, hheld]
        split
        · rfl
        · exact hstate
      · rcases mem_cons.mp hlabel with rfl | hlabel
        · left
          obtain ⟨held, hheld, -⟩ := Option.map_eq_some_iff.mp hg
          rw [hrow, Option.bind_some, if_pos hid, hid, hheld]
          rfl
        · exact .inr ⟨rfl, hlabel⟩

/-- The labels `finalize_after_ack` takes the slots of. -/
def End.ackScrubs (here : End) (tx : Id16) (ackHash : Digest) : List String :=
  match here.ledger.tx tx with
  | none => []
  | some row =>
    if row.state = .sourceFinalized || (row.state = .prepared && row.packageHash = ackHash) then
      row.moved
    else []

theorem finalizeAfterAck_released :
    Run.MovesFrom (Released P (here.ackScrubs tx ackHash)) (finalizeAfterAck tx ackHash) here := by
  refine .look_bind (.check_bind fun row hrow => ?_)
  have hrow := requireTx_ok hrow
  have hscrubs : row.state = .sourceFinalized ∨ (row.state = .prepared ∧ row.packageHash = ackHash) →
      here.ackScrubs tx ackHash = row.moved := by
    intro h
    unfold End.ackScrubs
    rw [hrow]
    simp only [Bool.or_eq_true, Bool.and_eq_true, decide_eq_true_eq, if_pos h]
  split
  · exact .pure ()
  split
  next hfinal =>
    rw [hscrubs (.inl hfinal)]
    exact .bind (scrubMovedSlots_released hrow) fun _ _ _ => setState_released rfl
  refine .require_bind fun hprepared => ?_
  split
  · exact .bind (setState_released rfl) fun _ _ _ => .check _
  next hhash =>
    rw [hscrubs (.inr ⟨by simpa using hprepared, not_not.mp hhash⟩)]
    refine .bind (scrubMovedSlots_released hrow) fun _ there _ => ?_
    refine onLedger_shifts fun u ledger hrun => ?_
    obtain ⟨_, mid, hretire, hrun⟩ := Op.bind_ok hrun
    obtain ⟨_, mid', hfinal, hrun⟩ := Op.bind_ok hrun
    exact ((retireAll_later hretire).trans (setState_later rfl hfinal).later).trans
      (setState_later rfl hrun).later

theorem undoInstalled_released :
    Run.MovesFrom (Released P (((here.ledger.tx tx).map TxRow.installed).getD []))
      (undoInstalled tx) here := by
  refine .look_bind ?_
  split
  next row hrow =>
    rw [hrow]
    have hundone : Run.MovesFrom (Released P row.installed) (removeSlots row.installed) here :=
      (removeSlots_ends fun _ h => h).mono (fun _ _ h => h.1.released) fun _ h => h.released
    exact .bind hundone fun _ _ _ => setState_released rfl
  next => exact .pure ()

end Released

/-! ## §4. Both ends. -/

/-- Slots of `scrubbed` removed at the source and of `undone` at the destination. -/
structure Settled (P : IdentityRow → Prop) (scrubbed undone : List String) (here there : Pair) :
    Prop where
  source : Released P scrubbed here.source there.source
  dest : Released P undone here.dest there.dest

instance (P : IdentityRow → Prop) (scrubbed undone : List String) :
    IsPreorder Pair (Settled P scrubbed undone) where
  refl here := ⟨Std.Refl.refl here.source, Std.Refl.refl here.dest⟩
  trans a b c hab hbc := ⟨IsTrans.trans a.source b.source c.source hab.source hbc.source,
    IsTrans.trans a.dest b.dest c.dest hab.dest hbc.dest⟩

section

variable (here : Pair) (tx : Id16)

/-- The labels `finalize_source` takes the slots of. -/
def Pair.scrubs : List String :=
  match here.source.ledger.tx tx with
  | none => []
  | some row =>
    if row.state = .completed then []
    else if row.state = .sourceFinalized || (here.dest.ledger.tx tx).any (fun dest =>
      dest.state.settled && row.packageHash = dest.packageHash) then row.moved
    else []

/-- The labels `abort_transfer` takes the slots of. -/
def Pair.undoes : List String :=
  if here.dest.ledger.destinationCommitted tx then []
  else ((here.dest.ledger.tx tx).map TxRow.installed).getD []

/-- Whether `recover_pair` finalizes: the source was already finalized or the destination has
committed. -/
def Pair.recoversForward : Bool :=
  here.source.ledger.txState tx = some .sourceFinalized || here.dest.ledger.destinationCommitted tx

/-- Whether `recover_pair` leaves the slots alone: it has nothing to go by, it needs an
administrator, or the transaction is complete. -/
def Pair.recoversNothing : Bool :=
  match here.source.ledger.tx tx with
  | none => true
  | some row => (here.dest.ledger.tx tx).any (fun dest => row.packageHash ≠ dest.packageHash)
      || row.state = .needsAdmin || row.state = .completed

/-- The labels `recover_pair` takes the slots of at the source. -/
def Pair.recoverScrubs : List String :=
  if !here.recoversNothing tx && here.recoversForward tx then here.scrubs tx else []

/-- The labels `recover_pair` takes the slots of at the destination. -/
def Pair.recoverUndoes : List String :=
  if !here.recoversNothing tx && !here.recoversForward tx then here.undoes tx else []

end

section Settled

variable {P : IdentityRow → Prop} {scrubbed undone : List String} {here : Pair} {tx : Id16}
  {m : Run End Error α}

theorem atSource_settled (h : Run.MovesFrom (Released P scrubbed) m here.source) :
    Run.MovesFrom (Settled P scrubbed undone) (atSource m) here :=
  Run.MovesFrom.on h fun _ hsource => ⟨hsource, Std.Refl.refl here.dest⟩

theorem atDest_settled (h : Run.MovesFrom (Released P undone) m here.dest) :
    Run.MovesFrom (Settled P scrubbed undone) (atDest m) here :=
  Run.MovesFrom.on h fun _ hdest => ⟨Std.Refl.refl here.source, hdest⟩

abbrev Raised : Ledger → Ledger → Prop :=
  Relation.ReflTransGen fun a b => ∃ id generation, b = a.withGenerationAtLeast id generation

theorem Raised.later {a : Ledger} (h : Raised a b) : Later P a b := by
  refine .mono (fun a b hstep => ?_) _ _ h
  obtain ⟨id, generation, rfl⟩ := hstep
  exact Change.atLeast a id generation

/-- The destination's generations are raised, and nothing else is written. -/
structure Raises (here there : Pair) : Prop where
  source : there.source = here.source
  dest : Shifts Raised Eq here.dest there.dest

theorem Raises.refl (here : Pair) : Raises here here := ⟨rfl, Std.Refl.refl here.dest⟩

theorem Raises.trans {a b c : Pair} (h : Raises a b) (h' : Raises b c) : Raises a c :=
  ⟨h'.source.trans h.source, IsTrans.trans _ _ _ h.dest h'.dest⟩

theorem Raises.settled {there : Pair} (h : Raises here there) : Settled P scrubbed undone here there := by
  refine ⟨?_, h.dest.ledger.later, ?_⟩
  · rw [h.source]
    exact Std.Refl.refl here.source
  · rw [h.dest.container]
    exact .refl undone _

theorem retireLabels_ends :
    Run.Ends (retireLabels operation labels pending) here
      (fun pending' there => retireAll operation labels pending = (.ok (), pending') ∧ Raises here there)
      (Raises here) := by
  induction labels generalizing here pending with
  | nil => exact .pure ⟨rfl, .refl here⟩
  | cons first rest ih =>
    unfold retireLabels
    split
    next => exact .check (.refl here) fun _ h => absurd h (by simp)
    next id target pending' hretire =>
      refine .bind (M := fun _ => Raises here) ?_ fun _ there hthere => ?_
      · refine .ignore (.on (onLedger_ends ⟨.refl here, .refl here⟩ fun u ledger hrun => ?_))
        obtain rfl := Op.modify_ok hrun
        exact ⟨rfl, .single ⟨id, target, rfl⟩, rfl⟩
      · refine .mono ih ?_ fun _ => hthere.trans
        rintro pending'' after ⟨hretired, hafter⟩
        refine ⟨?_, hthere.trans hafter⟩
        unfold retireAll
        rw [Op.bind_of_ok hretire, hretired]

theorem retireSourceMaterial_settled {row : TxRow} (hrow : here.source.ledger.tx tx = some row)
    (hcompleted : row.state ≠ .completed) :
    Run.MovesFrom (Settled P (here.scrubs tx) undone) (retireSourceMaterial tx) here := by
  refine .look_bind (.check_bind fun dest hdest => ?_)
  refine .require_bind fun hsettled => Run.Ends.pass_bind (requireTx_of_some hrow) ?_
  show Run.MovesFrom _ _ here
  split
  · refine .bind (atSource_settled (setState_released rfl)) fun _ _ _ => ?_
    exact .bind (atDest_settled (setState_released rfl)) fun _ _ _ => .check _
  next hhash =>
    have hscrubs : here.scrubs tx = row.moved := by
      unfold Pair.scrubs
      rw [hrow, requireTx_ok hdest]
      simp [hcompleted, hsettled, not_not.mp hhash]
    rw [hscrubs]
    refine .bind (atSource_settled (scrubMovedSlots_released hrow)) fun _ there _ => .look_bind ?_
    refine .bind_of (.mono retireLabels_ends (fun _ _ h => h) fun _ h => h.settled)
      (fun _ _ h => h.2.settled) ?_
    rintro pending after ⟨hretired, hraises⟩
    refine atSource_settled (onLedger_shifts fun u ledger hrun => ?_)
    obtain ⟨_, mid, hmodify, hrun⟩ := Op.bind_ok hrun
    obtain rfl := Op.modify_ok hmodify
    rw [hraises.source]
    exact (retireAll_later hretired).trans (setState_later rfl hrun).later

/-- **What finalizing can do to the two ends.** -/
theorem finalizeSource_settled :
    Run.MovesFrom (Settled P (here.scrubs tx) undone) (finalizeSource tx) here := by
  refine .look_bind (.check_bind fun row hrow => ?_)
  have hrow := requireTx_ok hrow
  split
  · exact .pure ()
  next hcompleted =>
    refine .bind (R := Settled P (here.scrubs tx) undone) ?_ fun _ _ _ => ?_
    · unfold letGo
      split
      · exact retireSourceMaterial_settled hrow hcompleted
      next hfinal =>
        have hscrubs : here.scrubs tx = row.moved := by
          unfold Pair.scrubs
          rw [hrow]
          simp [not_not.mp hfinal]
        rw [hscrubs]
        exact atSource_settled (scrubMovedSlots_released hrow)
    · refine .bind (.ignore (atDest_settled (setState_released rfl)))
        fun _ _ _ => ?_
      exact atSource_settled (setState_released rfl)

/-- **What aborting can do to the two ends.** -/
theorem abortTransfer_settled :
    Run.MovesFrom (Settled P scrubbed (here.undoes tx)) (abortTransfer tx) here := by
  refine .look_bind (.require_bind fun hnot => ?_)
  have hundoes : here.undoes tx = ((here.dest.ledger.tx tx).map TxRow.installed).getD [] := by
    unfold Pair.undoes
    rw [Bool.not_eq_true'] at hnot
    rw [hnot]
    rfl
  rw [hundoes]
  refine .bind (atDest_settled undoInstalled_released) fun _ _ _ => ?_
  exact .look_bind (.when fun _ => atSource_settled (setState_released rfl))

/-- **What recovering can do to the two ends.** -/
theorem recoverPair_settled :
    Run.MovesFrom (Settled P (here.recoverScrubs tx) (here.recoverUndoes tx)) (recoverPair tx) here := by
  refine .look_bind (.check_bind fun row hrow => ?_)
  have hrow := requireTx_ok hrow
  split
  · refine .bind (atSource_settled (setState_released rfl)) fun _ _ _ => ?_
    exact .bind (atDest_settled (setState_released rfl)) fun _ _ _ => .pure _
  next hhash =>
    split
    · exact .pure _
    next hadmin =>
      split
      · exact .bind (.when fun _ =>
          .ignore (atDest_settled (setState_released rfl))) fun _ _ _ => .pure _
      next hcompleted =>
        have hnothing : here.recoversNothing tx = false := by
          unfold Pair.recoversNothing
          rw [hrow]
          simp [hadmin, hcompleted] at hhash ⊢
          exact hhash
        have hstate := txState_of_tx hrow
        have hforward : here.recoversForward tx → here.recoverScrubs tx = here.scrubs tx := by
          intro h
          simp [Pair.recoverScrubs, hnothing, h]
        split
        next hfinal =>
          rw [hforward (by simp [Pair.recoversForward, hstate, hfinal])]
          exact .bind finalizeSource_settled fun _ _ _ => .pure _
        next hfinal =>
          split
          next hcommitted =>
            rw [hforward (by simp [Pair.recoversForward, hcommitted])]
            exact .bind finalizeSource_settled fun _ _ _ => .pure _
          next hcommitted =>
            have hback : here.recoverUndoes tx = here.undoes tx := by
              simp [Pair.recoverUndoes, Pair.recoversForward, hnothing, hstate, hfinal, hcommitted]
            rw [hback]
            exact .bind abortTransfer_settled fun _ _ _ => .pure _

end Settled

end KeyQuorum.Transfer
