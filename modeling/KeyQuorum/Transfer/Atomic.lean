/-
  **A TRANSFER IS ATOMIC UNDER CRASHES, IF ONLY THE ENCRYPTION KEY IS
  LOOKED AT.**

  Wherever a transfer stops, `recover_pair` returns.  If the destination had
  not committed, everything is as before.  If it had, every included label is
  active at the destination and under it is a slot, and of a MOVE only ghosts
  are left at the source.  Recovering once more changes nothing.

  The slot at the destination need not be the one that was handed over:
  `write_destination_slots` takes a slot that is already there for it when
  the encryption keys are equal, whatever its signing key.
-/
import KeyQuorum.Transfer.Phases
import KeyQuorum.Transfer.World

namespace KeyQuorum.Transfer

open List Foundation Ledger

attribute [ext] End Pair

/-! ## §1. Steps that return. -/

section Ends

variable {here : End} {tx : Id16} {row : TxRow} {state : TxState} {ledger : Ledger}

theorem onLedger_returns (h : m here.ledger = (.ok a, ledger)) (hA : A a { here with ledger }) :
    Run.Returns (onLedger m) here A :=
  .commit (Op.zoom_of_ok h) hA

theorem onContainer_returns (h : change here.container = .ok container)
    (hA : A () { here with container }) : Run.Returns (onContainer change) here A :=
  .commit (by simp only [h]) hA

theorem setState_returns (hrow : here.ledger.tx tx = some row)
    (hA : A () { here with ledger := here.ledger.withState tx state }) :
    Run.Returns (onLedger (setState tx state)) here A :=
  onLedger_returns (setState_run hrow) hA

theorem Ledger.withState_self (hstate : ledger.txState tx = some state) :
    ledger.withState tx state = ledger := by
  have hsame : ledger.transactions.change tx (fun row => { row with state }) (fun _ => rfl)
      = ledger.transactions := by
    refine Table.change_eq_self _ fun row hrow => ?_
    obtain ⟨found, hfound, rfl⟩ := Option.map_eq_some_iff.mp hstate
    rw [show ledger.transactions.find? tx = some found from hfound] at hrow
    cases hrow
    rfl
  unfold withState
  rw [hsame]

theorem removeSlots_returns (hvalid : ∀ label ∈ labels, validateSlotLabel label = .ok ()) :
    Run.Returns (removeSlots labels) here fun _ there => there.ledger = here.ledger
      ∧ ((∀ label ∈ labels, here.container.slot label = none) → there = here) := by
  induction labels generalizing here with
  | nil => exact .pure ⟨rfl, fun _ => rfl⟩
  | cons first rest ih =>
    have hrest := fun label hlabel => hvalid label (mem_cons_of_mem first hlabel)
    refine .look_bind (.bind (M := fun _ there => there.ledger = here.ledger
      ∧ (here.container.slot first = none → there = here)) ?_ ?_)
    · refine .when (fun hsome => ?_) fun _ => ⟨rfl, fun _ => rfl⟩
      obtain ⟨slot, hslot⟩ := Option.isSome_iff_exists.mp hsome
      have hremove : here.container.removeSlot first = .ok (here.container.withoutSlot first) := by
        unfold Container.removeSlot
        rw [hvalid first (.head _), hslot]
        rfl
      refine onContainer_returns hremove ⟨rfl, fun hnone => ?_⟩
      rw [hslot] at hnone
      cases hnone
    · rintro _ there ⟨hledger, hsame⟩
      refine .mono (ih hrest) ?_
      rintro _ after ⟨hledger', hsame'⟩
      refine ⟨hledger'.trans hledger, fun hnone => ?_⟩
      obtain rfl := hsame (hnone first (.head _))
      exact hsame' fun label hlabel => hnone label (mem_cons_of_mem first hlabel)

theorem scrubMovedSlots_returns (hrow : here.ledger.tx tx = some row)
    (hvalid : ∀ label ∈ row.included, validateSlotLabel label = .ok ()) :
    Run.Returns (scrubMovedSlots tx) here fun _ _ => True := by
  refine .look_bind (.check_bind (requireTx_of_some hrow) ?_)
  split
  · exact .mono (removeSlots_returns hvalid) fun _ _ _ => trivial
  · exact .pure trivial

def Ledger.Retirable (ledger : Ledger) (label : String) : Prop :=
  ∃ row g, ledger.identityByLabel label = some row ∧ ledger.generation? row.id = some g

theorem retireLabel_run {operation : TransferOp} {label : String} {ledger : Ledger}
    (h : ledger.Retirable label) :
    ∃ retired ledger', retireLabel operation label ledger = (.ok retired, ledger')
      ∧ ∀ other, ledger.Retirable other → ledger'.Retirable other := by
  obtain ⟨row, g, hrow, hg⟩ := h
  have hrow' : okOr (ledger.identityByLabel label) Error.transferDenied = .ok row := by
    rw [hrow]
    rfl
  have hg' : ledger.generationOf row.id = .ok g := by
    unfold generationOf
    rw [hg]
    rfl
  unfold retireLabel
  rw [Op.read_bind, Op.lift_bind hrow', Op.lift_bind hg']
  cases operation with
  | copy => exact ⟨_, _, rfl, fun _ h => h⟩
  | move =>
    obtain ⟨held, hheld, -⟩ := Option.map_eq_some_iff.mp hg
    refine ⟨(row.id, g.next), ledger.withPossession row.id .ghost g.next, ?_, ?_⟩
    · show (setPossession row.id .ghost g.next >>= fun _ => pure (row.id, g.next)) ledger = _
      rw [Op.bind_of_ok (setPossession_run hheld)]
      rfl
    · rintro other ⟨otherRow, otherG, hother, hotherG⟩
      refine ⟨otherRow, if otherRow.id = row.id then g.next else otherG, hother, ?_⟩
      rw [generation?_withPossession, hotherG]
      split
      · rfl
      · rfl

theorem retireLabels_returns {here : Pair} {operation : TransferOp}
    (h : ∀ label ∈ labels, pending.Retirable label) :
    Run.Returns (retireLabels operation labels pending) here fun _ _ => True := by
  induction labels generalizing here pending with
  | nil => exact .pure trivial
  | cons first rest ih =>
    obtain ⟨⟨id, target⟩, pending', hretire, hkeeps⟩ :=
      @retireLabel_run operation first pending (h first (.head _))
    unfold retireLabels
    rw [hretire]
    refine .bind (M := fun _ _ => True) (.ignore (.on ?_)) ?_
    · exact onLedger_returns rfl trivial
    · intro _ there _
      exact ih fun label hlabel => hkeeps label (h label (mem_cons_of_mem first hlabel))

end Ends

/-! ## §2. Recovering what has not been decided. -/

section Recovery

variable [Crypto] [KeyPairs] {start here : Pair} {request : Request} {prepared : PreparedTransfer}

/-- Both rows say that the transaction was aborted; the destination may have none. -/
structure Aborted (tx : Id16) (here : Pair) : Prop where
  source : here.source.ledger.txState tx = some .aborted
  dest : here.dest.ledger.tx tx = none ∨ here.dest.ledger.txState tx = some .aborted

variable {row : TxRow} {label : String}

theorem undoInstalled_returns {start here : End} (h : DestOpen start prepared row here) :
    Run.Returns (undoInstalled prepared.bundle.id) here fun _ there =>
      there.ledger = here.ledger.withState prepared.bundle.id .aborted
        ∧ (here.container = start.container → there.container = here.container) := by
  refine .look_bind ?_
  rw [h.tx_eq]
  refine .bind (removeSlots_returns fun label hlabel => (h.container.fresh label hlabel).2) ?_
  rintro _ there ⟨hledger, hsame⟩
  have hrow : there.ledger.tx prepared.bundle.id = some row := hledger ▸ h.tx_eq
  refine setState_returns hrow ⟨by rw [hledger], fun hcontainer => ?_⟩
  have hnone : ∀ label ∈ row.installed, here.container.slot label = none := by
    rw [hcontainer]
    exact fun label hlabel => (h.container.fresh label hlabel).1
  rw [hsame hnone]

section

variable (h : Undecided start prepared here) (hnew : start.dest.ledger.tx prepared.bundle.id = none)

include h hnew

theorem Undecided.not_committed : here.dest.ledger.destinationCommitted prepared.bundle.id = false := by
  unfold destinationCommitted txState
  rcases h.dest with hdest | ⟨row, hopen, hstate⟩
  · rw [hdest, hnew]
    rfl
  · rw [hopen.tx_eq]
    exact hstate

theorem abortTransfer_returns :
    Run.Returns (abortTransfer prepared.bundle.id) here fun _ there =>
      Aborted prepared.bundle.id there
        ∧ (Aborted prepared.bundle.id here → here.dest.container = start.dest.container →
            there = here) := by
  have hcommitted : (!here.dest.ledger.destinationCommitted prepared.bundle.id) := by
    rw [h.not_committed hnew]
    rfl
  refine .look_bind (.require_bind hcommitted ?_)
  refine .bind (M := fun _ there => there.source = here.source
    ∧ (there.dest.ledger.tx prepared.bundle.id = none
      ∨ there.dest.ledger.txState prepared.bundle.id = some .aborted)
    ∧ (Aborted prepared.bundle.id here → here.dest.container = start.dest.container →
        there.dest = here.dest)) (.on ?_) ?_
  · rcases h.dest with hdest | ⟨row, hopen, -⟩
    · have hnone : here.dest.ledger.tx prepared.bundle.id = none := by
        rw [hdest]
        exact hnew
      refine .look_bind ?_
      rw [hnone]
      exact .pure ⟨rfl, .inl hnone, fun _ _ => rfl⟩
    · refine .mono (undoInstalled_returns hopen) ?_
      rintro _ there ⟨hledger, hcontainer⟩
      refine ⟨rfl, .inr ?_, fun haborted hsame => ?_⟩
      · show there.ledger.txState prepared.bundle.id = _
        rw [hledger, txState_withState hopen.tx_eq]
      · -- a destination that was aborted keeps its row, and has no slot to give up
        have hstate : here.dest.ledger.txState prepared.bundle.id = some .aborted := by
          rcases haborted.dest with hnone | hstate
          · rw [hopen.tx_eq] at hnone
            cases hnone
          · exact hstate
        rw [withState_self hstate] at hledger
        exact End.ext hledger (hcontainer hsame)
  · rintro _ there ⟨hsource, hdest, hsame⟩
    obtain ⟨row, hrow, -, hstate⟩ := h.source.row
    have hrow' : there.source.ledger.tx prepared.bundle.id = some row := by
      rw [hsource]
      exact hrow
    have htxState := txState_of_tx hrow'
    refine .look_bind (.when (fun _ => .on ?_) fun hnot => ?_)
    · refine setState_returns hrow' ⟨⟨txState_withState hrow', hdest⟩, fun haborted hcontainer => ?_⟩
      rw [hsource, withState_self haborted.source]
      exact Pair.ext rfl (hsame haborted hcontainer)
    · rw [htxState] at hnot
      rcases hstate with hstate | hstate <;> rw [hstate] at hnot <;> cases hnot

theorem recoverPair_aborts (habort : Run.Returns (abortTransfer prepared.bundle.id) here fun _ => A) :
    Run.Returns (recoverPair prepared.bundle.id) here fun recovery there =>
      recovery = .aborted ∧ A there := by
  obtain ⟨row, hrow, hown, hstate⟩ := h.source.row
  have hhash : ((here.dest.ledger.tx prepared.bundle.id).any fun dest =>
      row.packageHash ≠ dest.packageHash) = false := by
    rcases h.dest with hdest | ⟨dest, hopen, -⟩
    · rw [hdest, hnew]
      rfl
    · rw [hopen.tx_eq]
      simp [hown.hash_eq, hopen.hash_eq]
  have hstates : row.state ≠ .needsAdmin ∧ row.state ≠ .completed ∧ row.state ≠ .sourceFinalized := by
    rcases hstate with hstate | hstate <;> rw [hstate] <;> decide
  refine .look_bind (.check_bind (requireTx_of_some hrow) ?_)
  rw [hhash, if_neg Bool.false_ne_true, if_neg hstates.1, if_neg hstates.2.1, if_neg hstates.2.2,
    h.not_committed hnew, if_neg Bool.false_ne_true]
  exact .bind habort fun _ there hthere => .pure ⟨rfl, hthere⟩

/-- **Recovering before the destination has committed**: everything is as before. -/
theorem recoverPair_undecided :
    Run.Returns (recoverPair prepared.bundle.id) here fun recovery there => recovery = .aborted
      ∧ Undecided start prepared there ∧ there.dest.container = start.dest.container
      ∧ Run.Returns (recoverPair prepared.bundle.id) there fun _ after => after = there := by
  have hfirst := (abortTransfer_returns h hnew).and_ends (abortTransfer_undecided h hnew)
  refine .mono (recoverPair_aborts h hnew hfirst) ?_
  rintro _ there ⟨rfl, ⟨haborted, -⟩, hundecided, hcontainer⟩
  refine ⟨rfl, hundecided, hcontainer, ?_⟩
  have hagain := recoverPair_aborts hundecided hnew (A := fun after => after = there)
    (.mono (abortTransfer_returns hundecided hnew) fun _ _ hsame => hsame.2 haborted hcontainer)
  exact .mono hagain fun _ _ hsame => hsame.2

end

/-! ## §3. Recovering what has been decided. -/

structure Completed (tx : Id16) (here : Pair) : Prop where
  source : here.source.ledger.txState tx = some .completed
  dest : here.dest.ledger.txState tx = some .completed

theorem End.Packed.retirable {start here : End} (hpacked : start.Packed request prepared)
    (hheld : SameHeld start.ledger here.ledger) (hlabel : label ∈ prepared.secretLabels) :
    here.ledger.Retirable label := by
  obtain ⟨entry, -, rfl, row, _, hhands⟩ := hpacked.entry_of_label hlabel
  have hgeneration := hhands.generation
  refine ⟨row, entry.generation, hheld.grown.byLabel hhands.identity, ?_⟩
  unfold generation? at hgeneration ⊢
  rwa [hheld.possessions_eq]

theorem End.Packed.valid {start : End} (hpacked : start.Packed request prepared)
    (hlabel : label ∈ prepared.secretLabels) : validateSlotLabel label = .ok () := by
  obtain ⟨entry, -, rfl, row, _, hhands⟩ := hpacked.entry_of_label hlabel
  exact hhands.valid

section

variable (hpacked : start.source.Packed request prepared) (h : Decided start prepared here)
  (hletting : SourceLetting start.source prepared row here.source) (hcompleted : row.state ≠ .completed)

include hpacked h hletting hcompleted

theorem letGo_returns :
    Run.Returns (letGo prepared.bundle.id row.state) here fun _ there =>
      Finalized start prepared there := by
  have hvalid : ∀ label ∈ row.included, validateSlotLabel label = .ok () := by
    rw [hletting.own.included_eq]
    exact fun label hlabel => hpacked.valid hlabel
  have hscrub := scrubMovedSlots_returns hletting.tx_eq hvalid
  refine .mono (.and_ends (P := fun _ _ => True) ?_
    (letGo_finalizes h hletting hcompleted)) fun _ _ hthere => hthere.2
  unfold letGo
  split
  next hfinal =>
    obtain ⟨-, hheld⟩ := hletting.kept hfinal hcompleted
    obtain ⟨dest, hdest, hhash, hsettled⟩ := h.dest.row
    refine .look_bind (.check_bind (requireTx_of_some hdest) ?_)
    refine .require_bind hsettled ?_
    refine .check_bind (requireTx_of_some hletting.tx_eq) ?_
    rw [if_neg (not_not.mpr (hletting.own.hash_eq.trans hhash.symm))]
    refine .bind (M := fun _ there => here.source.ledger = there.source.ledger)
      (.on (.mono (hscrub.and_ends (scrubMovedSlots_ends hletting.tx_eq))
        fun _ _ hthere => hthere.2.1.ledger)) ?_
    intro _ there hledger
    have hretirable : ∀ label ∈ row.included, there.source.ledger.Retirable label := by
      rw [hletting.own.included_eq, ← hledger]
      exact fun label hlabel => hpacked.retirable hheld hlabel
    refine .look_bind (.bind ((retireLabels_returns hretirable).and_ends retireLabels_ends) ?_)
    rintro pending after ⟨-, hretired, -⟩
    have hrow : pending.tx prepared.bundle.id = some row := by
      unfold tx
      rw [(retireAll_ghosts hretired).1, ← hledger]
      exact hletting.tx_eq
    have hcommit : ((Op.modify fun _ => pending) >>= fun _ =>
        setState prepared.bundle.id .sourceFinalized) after.source.ledger
          = (.ok (), pending.withState prepared.bundle.id .sourceFinalized) := by
      exact setState_run hrow
    exact .on (onLedger_returns hcommit trivial)
  next => exact .on (.mono hscrub fun _ _ h => h)

theorem finalizeSource_returns :
    Run.Returns (finalizeSource prepared.bundle.id) here fun _ there =>
      Finalized start prepared there ∧ Completed prepared.bundle.id there := by
  refine .mono (.and_ends
    (P := fun _ there => Completed prepared.bundle.id there) ?_ (finalizeSource_decided h))
    fun _ _ hthere => ⟨hthere.2, hthere.1⟩
  refine .look_bind (.check_bind (requireTx_of_some hletting.tx_eq) ?_)
  rw [if_neg hcompleted]
  refine .bind (letGo_returns hpacked h hletting hcompleted) ?_
  rintro _ there ⟨⟨row', hletting', -⟩, hdone⟩
  obtain ⟨dest, hdest, -⟩ := hdone.row
  refine .bind (M := fun _ after => after.source = there.source
    ∧ after.dest.ledger.txState prepared.bundle.id = some .completed)
    (.ignore (.on (setState_returns hdest ⟨rfl, txState_withState hdest⟩))) ?_
  rintro _ after ⟨hsource, hstate⟩
  have hrow : after.source.ledger.tx prepared.bundle.id = some row' := by
    rw [hsource]
    exact hletting'.tx_eq
  exact .on (setState_returns hrow ⟨txState_withState hrow, hstate⟩)

end

theorem Decided.same_hash (h : Decided start prepared here) (hown : SourceRow prepared row) :
    ((here.dest.ledger.tx prepared.bundle.id).any fun dest => row.packageHash ≠ dest.packageHash) = false := by
  obtain ⟨dest, hdest, hhash, -⟩ := h.dest.row
  rw [hdest]
  simp [hown.hash_eq, hhash]

theorem recoverPair_completes (h : Decided start prepared here)
    (hletting : SourceLetting start.source prepared row here.source) (hcompleted : row.state = .completed) :
    Run.Returns (recoverPair prepared.bundle.id) here fun recovery there =>
      recovery = .alreadyComplete ∧ there = { here with dest :=
        { here.dest with ledger := here.dest.ledger.withState prepared.bundle.id .completed } } := by
  obtain ⟨dest, hdest, -⟩ := h.dest.row
  refine .look_bind (.check_bind (requireTx_of_some hletting.tx_eq) ?_)
  rw [h.same_hash hletting.own, if_neg Bool.false_ne_true, if_neg (by rw [hcompleted]; decide), if_pos hcompleted]
  refine .bind (M := fun _ there => there = { here with dest :=
    { here.dest with ledger := here.dest.ledger.withState prepared.bundle.id .completed } }) ?_ ?_
  · refine .when (fun _ => ?_) fun hnone => ?_
    · exact .ignore (.on (setState_returns hdest rfl))
    · rw [hdest] at hnone
      cases hnone
  · exact fun _ there hthere => .pure ⟨rfl, hthere⟩

theorem recoverPair_again (h : Finalized start prepared here)
    (hcompleted : Completed prepared.bundle.id here) :
    Run.Returns (recoverPair prepared.bundle.id) here fun _ there => there = here := by
  obtain ⟨row, hletting, -, -⟩ := h.1
  have hstate : row.state = .completed :=
    Option.some.inj ((txState_of_tx hletting.tx_eq).symm.trans hcompleted.source)
  refine .mono (recoverPair_completes h.decided hletting hstate) ?_
  rintro _ there ⟨-, rfl⟩
  rw [withState_self hcompleted.dest]

/-- **Recovering once the destination has committed**: the source lets go. -/
theorem recoverPair_decided (hpacked : start.source.Packed request prepared)
    (h : Decided start prepared here) :
    Run.Returns (recoverPair prepared.bundle.id) here fun recovery there =>
      (recovery = .finalized ∨ recovery = .alreadyComplete) ∧ Finalized start prepared there
      ∧ Run.Returns (recoverPair prepared.bundle.id) there fun _ after => after = there := by
  obtain ⟨row, hletting⟩ := h.source
  by_cases hcompleted : row.state = .completed
  · refine .mono (recoverPair_completes h hletting hcompleted) ?_
    rintro _ there ⟨rfl, rfl⟩
    have hfinalized : Finalized start prepared { here with dest :=
        { here.dest with ledger := here.dest.ledger.withState prepared.bundle.id .completed } } :=
      ⟨⟨row, hletting, hletting.letGo (by rw [hcompleted]; decide)⟩, h.dest.setState rfl⟩
    refine ⟨.inr rfl, hfinalized, recoverPair_again hfinalized ⟨?_, ?_⟩⟩
    · rw [← hcompleted]
      exact txState_of_tx hletting.tx_eq
    · obtain ⟨dest, hdest, -⟩ := h.dest.row
      exact txState_withState hdest
  · have hfinalize := finalizeSource_returns hpacked h hletting hcompleted
    have hadmin : row.state ≠ .needsAdmin := by
      rcases hletting.either with ⟨hstate, -⟩ | ⟨hstate | hstate, -⟩ <;> rw [hstate] <;> decide
    refine .look_bind (.check_bind (requireTx_of_some hletting.tx_eq) ?_)
    rw [h.same_hash hletting.own, if_neg Bool.false_ne_true, if_neg hadmin, if_neg hcompleted]
    have hdone : ∀ recovery : Recovery, recovery = .finalized ∨ recovery = .alreadyComplete →
        Run.Returns (do finalizeSource prepared.bundle.id; pure recovery) here fun recovery there =>
          (recovery = .finalized ∨ recovery = .alreadyComplete) ∧ Finalized start prepared there
          ∧ Run.Returns (recoverPair prepared.bundle.id) there fun _ after => after = there := by
      intro recovery hrecovery
      refine .bind hfinalize fun _ there hthere => ?_
      exact .pure ⟨hrecovery, hthere.1, recoverPair_again hthere.1 hthere.2⟩
    split
    · exact hdone .alreadyComplete (.inr rfl)
    · rw [if_pos h.committed]
      exact hdone .finalized (.inl rfl)

/-! ## §4. Atomicity. -/

/-- Everything as before: what was included is active at the source, with its slot, and the destination
has the slots it had. -/
structure RolledBack (start : Pair) (included : List String) (there : Pair) : Prop where
  source : ∀ label ∈ included, there.source.ledger.possession label = some .active
    ∧ ∃ slot, start.source.container.slot label = some slot
      ∧ there.source.container.slot label = some slot
  dest : there.dest.container = start.dest.container

/-- Everything handed over: what was included is active at the destination, with the keys of the source's
slot, and of a MOVE only ghosts are left at the source. -/
structure HandedOver (start : Pair) (row : TxRow) (there : Pair) : Prop where
  dest : ∀ label ∈ row.included, there.dest.ledger.possession label = some .active
    ∧ ∃ mine theirs, start.source.container.slot label = some mine
      ∧ there.dest.container.slot label = some theirs ∧ theirs.publicKeys = mine.publicKeys
  source : row.operation = .move → ∀ label ∈ row.included,
    there.source.ledger.possession label = some .ghost ∧ there.source.container.slot label = none

def Pair.Outcome (start : Pair) (row : TxRow) (there : Pair) : Recovery → Prop
  | .aborted => RolledBack start row.included there
  | .finalized => HandedOver start row there
  | .alreadyComplete => HandedOver start row there
  | .needsAdmin => False

/-- Where source and destination have slots of one label and one encryption key, they have one signing
key. -/
def Pair.SigningAgrees (start : Pair) (label : String) : Prop :=
  ∀ mine theirs, start.source.container.slot label = some mine →
    start.dest.container.slot label = some theirs →
    theirs.publicKeys.1 = mine.publicKeys.1 → theirs.publicKeys = mine.publicKeys

theorem Undecided.rolledBack (hpacked : start.source.Packed request prepared)
    (hactive : ∀ label ∈ prepared.secretLabels, start.source.ledger.possession label = some .active)
    (hincluded : row.included = prepared.secretLabels) (h : Undecided start prepared here)
    (hcontainer : here.dest.container = start.dest.container) :
    RolledBack start row.included here := by
  rw [hincluded]
  refine ⟨fun label hlabel => ⟨?_, ?_⟩, hcontainer⟩
  · have hstart := hactive label hlabel
    unfold possession identityByLabel at hstart ⊢
    rwa [h.source.held.identities_eq, h.source.held.possessions_eq]
  · obtain ⟨entry, hentry, rfl, _, slot, hhands⟩ := hpacked.entry_of_label hlabel
    refine ⟨slot, hhands.slot_eq, ?_⟩
    rw [h.source.container_eq]
    exact hhands.slot_eq

/-- What was finalized is handed over exactly if the destination's own slots have the right signing
keys. -/
theorem Finalized.handedOver_iff (hpacked : start.source.Packed request prepared)
    (hown : SourceRow prepared row) (h : Finalized start prepared here) :
    HandedOver start row here ↔ ∀ label ∈ row.included, start.SigningAgrees label := by
  obtain ⟨⟨_, _, _, hletGo⟩, hdone⟩ := h
  -- what is known of each label's slots
  have hslots : ∀ label ∈ row.included, ∃ entry ∈ prepared.bundle.secretEntries, ∃ mine,
      entry.label = label ∧ start.source.container.slot label = some mine
        ∧ mine.publicKeys = (entry.encPublic, entry.signPublic) := by
    intro label hlabel
    rw [hown.included_eq] at hlabel
    obtain ⟨entry, hentry, rfl, _, slot, hhands⟩ := hpacked.entry_of_label hlabel
    refine ⟨entry, hentry, slot, rfl, hhands.slot_eq, ?_⟩
    rw [hhands.keys_eq, hhands.encPublic_eq, hhands.signPublic_eq]
  constructor
  · intro hover label hlabel mine theirs hmine htheirs _
    obtain ⟨entry, hentry, found, rfl, hfound, hkeys⟩ := hslots label hlabel
    obtain ⟨-, mine', theirs', hmine', htheirs', hsame⟩ := hover.dest _ hlabel
    obtain ⟨slot, hslot, hcases⟩ := hdone.filled entry hentry
    rw [hmine] at hmine'
    obtain rfl := Option.some.inj hmine'
    rw [hslot] at htheirs'
    obtain rfl := Option.some.inj htheirs'
    rcases hcases with ⟨hold, -⟩ | ⟨hnone, -⟩
    · rw [htheirs] at hold
      cases hold
      exact hsame
    · rw [htheirs] at hnone
      cases hnone
  · intro hagrees
    refine ⟨fun label hlabel => ?_, fun hmove label hlabel => ?_⟩
    · obtain ⟨entry, hentry, mine, rfl, hmine, hkeys⟩ := hslots label hlabel
      obtain ⟨slot, hslot, hcases⟩ := hdone.filled entry hentry
      refine ⟨hdone.active entry hentry, mine, slot, hmine, hslot, ?_⟩
      rcases hcases with ⟨hold, henc⟩ | ⟨-, hnew⟩
      · exact hagrees _ hlabel mine slot hmine hold (by rw [henc, hkeys])
      · rw [hnew, hkeys]
    · rw [hown.included_eq] at hlabel
      exact hletGo (hown.operation_eq.symm.trans hmove) label hlabel

/-- **A transfer that stopped anywhere, recovered.**  `recover_pair` returns one of the two outcomes, and
changes nothing when it is run again, exactly if the destination had not committed or every slot it took
for one that was handed over has the source's signing key as well. -/
theorem Pair.transfer_atomic_iff (start : Pair) (request : Request) (left : Option Nat) (row : TxRow)
    (hsource : start.source.ledger.tx request.txId = none)
    (hdest : start.dest.ledger.tx request.txId = none)
    (hrow : ((transfer request).after left start).source.ledger.tx request.txId = some row) :
    Run.Returns (recoverPair request.txId) ((transfer request).after left start)
        (fun recovery there => start.Outcome row there recovery
          ∧ Run.Returns (recoverPair request.txId) there fun _ after => after = there)
      ↔ ((transfer request).after left start).dest.ledger.destinationCommitted request.txId = false
        ∨ ∀ label ∈ row.included, start.SigningAgrees label := by
  have hphase := Run.Ends.after (Run.Ends.mono (transfer_phase hdest) (fun _ _ h => Or.inr h)
    fun _ h => h) left
  generalize (transfer request).after left start = cut at hphase hrow ⊢
  rcases hphase with rfl | ⟨prepared, hpacked, hactive, hphase⟩
  · rw [hsource] at hrow
    cases hrow
  rw [← hpacked.id_eq] at hdest hrow ⊢
  rcases hphase with hundecided | hdecided
  · -- rolled back
    rw [hundecided.not_committed hdest]
    refine iff_of_true (.mono (recoverPair_undecided hundecided hdest) ?_) (.inl rfl)
    rintro _ there ⟨rfl, hthere, hcontainer, hagain⟩
    obtain ⟨found, hfound, hown, -⟩ := hundecided.source.row
    rw [hrow] at hfound
    cases hfound
    exact ⟨hthere.rolledBack hpacked hactive hown.included_eq hcontainer, hagain⟩
  · -- handed over
    obtain ⟨found, hletting⟩ := hdecided.source
    have hown : SourceRow prepared row := by
      rw [hletting.tx_eq] at hrow
      cases hrow
      exact hletting.own
    have hreturns := recoverPair_decided hpacked hdecided
    rw [hdecided.committed]
    constructor
    · rintro ⟨recovery, there, hrun, houtcome, -⟩
      right
      obtain ⟨recovery', there', hrun', hrecovery, hfinalized, -⟩ := hreturns
      rw [hrun] at hrun'
      obtain ⟨hsame, hthere⟩ := Prod.mk.inj hrun'
      cases hsame
      obtain ⟨rfl, -⟩ := Powered.mk.inj hthere
      rw [← hfinalized.handedOver_iff hpacked hown]
      rcases hrecovery with rfl | rfl
      · exact houtcome
      · exact houtcome
    · rintro (hfalse | hagrees)
      · cases hfalse
      · refine .mono hreturns ?_
        rintro recovery there ⟨hrecovery, hfinalized, hagain⟩
        have hover := (hfinalized.handedOver_iff hpacked hown).mpr hagrees
        rcases hrecovery with rfl | rfl
        · exact ⟨hover, hagain⟩
        · exact ⟨hover, hagain⟩

end Recovery

namespace Sample

attribute [local instance] crypto keyPairs

/-- Device 1 has enrolled `M`, device 2 has nothing. -/
def apart : Pair := ⟨enrolled false, enrolled true⟩

/-- A request to move `M`. -/
def moveM : Request := request 2 2 .move

/-- The power fails between the removal of the slot of `M` and the ghost that should stand for it. -/
def cutMove : Pair := (transfer moveM).after (some 8) apart

theorem cut_move_recovers :
    cutMove.source.container.slots = [] ∧ cutMove.source.ledger.possession "M" = some .active
      ∧ ∃ row, cutMove.source.ledger.tx moveM.txId = some row
        ∧ Run.Returns (recoverPair moveM.txId) cutMove fun recovery there =>
            apart.Outcome row there recovery
              ∧ Run.Returns (recoverPair moveM.txId) there fun _ after => after = there := by
  obtain ⟨hslots, hactive, hsource, hdest, hrow, hnone⟩ :
      cutMove.source.container.slots = [] ∧ cutMove.source.ledger.possession "M" = some .active
        ∧ apart.source.ledger.tx moveM.txId = none ∧ apart.dest.ledger.tx moveM.txId = none
        ∧ (cutMove.source.ledger.tx moveM.txId).isSome ∧ apart.dest.container.slots = [] := by
    decide +kernel
  obtain ⟨row, hrow⟩ := Option.isSome_iff_exists.mp hrow
  refine ⟨hslots, hactive, row, hrow, ?_⟩
  unfold cutMove at hrow ⊢
  refine (Pair.transfer_atomic_iff apart moveM (some 8) row hsource hdest hrow).mpr (.inr ?_)
  intro label _ mine theirs _ htheirs
  unfold Container.slot at htheirs
  rw [hnone] at htheirs
  cases htheirs

/-- A slot of `M` with another signing key. -/
def slotN : SlotRecord := ⟨"M", "p", .ofNat 32 7, .ofNat 32 9⟩

def clash : Pair := ⟨enrolled false, ⟨{}, device 2 [slotN]⟩⟩

def cutClash : Pair := (transfer moveM).after (some 4) clash

/-- **The move is recovered, and `M` is gone**: device 1 has let go of its slot, and device 2 has kept
its own. -/
theorem recovered_move_loses_signing_key :
    ∃ row, cutClash.source.ledger.tx moveM.txId = some row
      ∧ cutClash.source.container.slots = [slotM] ∧ cutClash.dest.container.slots = [slotN]
      ∧ (recoverPair moveM.txId ⟨cutClash, none⟩).1 = .ok .finalized
      ∧ (recoverPair moveM.txId ⟨cutClash, none⟩).2.state.source.container.slots = []
      ∧ (recoverPair moveM.txId ⟨cutClash, none⟩).2.state.dest.container.slots = [slotN]
      ∧ ¬ Run.Returns (recoverPair moveM.txId) cutClash fun recovery there =>
          clash.Outcome row there recovery := by
  obtain ⟨hrow, hsource, hdest, hok, hsource', hdest'⟩ :
      ((cutClash.source.ledger.tx moveM.txId).any fun row => "M" ∈ row.included)
        ∧ cutClash.source.container.slots = [slotM] ∧ cutClash.dest.container.slots = [slotN]
        ∧ (recoverPair moveM.txId ⟨cutClash, none⟩).1 = .ok .finalized
        ∧ (recoverPair moveM.txId ⟨cutClash, none⟩).2.state.source.container.slots = []
        ∧ (recoverPair moveM.txId ⟨cutClash, none⟩).2.state.dest.container.slots = [slotN] := by
    decide +kernel
  obtain ⟨row, hrow, hincluded⟩ := (Option.any_eq_true _ _).mp hrow
  refine ⟨row, hrow, hsource, hdest, hok, hsource', hdest', ?_⟩
  rintro ⟨recovery, there, hrun, houtcome⟩
  rw [hrun] at hok hdest'
  cases hok
  obtain ⟨-, mine, theirs, hmine, htheirs, hkeys⟩ :=
    HandedOver.dest houtcome "M" (by simpa using hincluded)
  have hstart : clash.source.container.slot "M" = some slotM := by decide
  rw [hstart] at hmine
  cases hmine
  unfold Container.slot at htheirs
  rw [show there.dest.container.slots = [slotN] from hdest'] at htheirs
  obtain rfl : slotN = theirs := Option.some.inj htheirs
  exact absurd hkeys (by decide)

end Sample

end KeyQuorum.Transfer
