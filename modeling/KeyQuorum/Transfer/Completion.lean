/-
  **WHETHER A MOVE CAN BE UNDONE.**

  Completing a MOVE leaves a ghost one generation up at the source.
  `finalize_source` raises the destination to the ghost's generation too;
  `finalize_after_ack`, which does not reach the destination, leaves it one
  behind, and the way back is then a replay.
-/
import KeyQuorum.Transfer.World
import KeyQuorum.Transfer.Prepare

namespace KeyQuorum.Transfer

open List Foundation Ledger

/-! ## §1. Generations on both sides. -/

/-- The source's generation of an identity is not ahead of the destination's. -/
def Within (source dest : Ledger) (id : Id16) : Prop :=
  ∃ g g', source.generation? id = some g ∧ dest.generation? id = some g' ∧ g.val ≤ g'.val

def Ledger.retirements (ledger : Ledger) (labels : List String) (id : Id16) : Nat :=
  labels.countP fun label => (ledger.identityByLabel label).any fun row => row.id = id

variable {ledger : Ledger} {labels : List String} {tx : Id16} {state : TxState} {row : TxRow}
  {entry : BundleEntry}

/-- **What retiring does to every generation**, when the destination is out of reach. -/
theorem retireAll_generation (h : retireAll .move labels ledger = (.ok u, ledger')) (id : Id16) :
    ledger'.generation? id
      = (ledger.generation? id).map (Generation.next^[ledger.retirements labels id]) := by
  induction labels generalizing ledger with
  | nil =>
    obtain ⟨-, rfl⟩ := Op.pure_ok h
    simp [retirements]
  | cons label labels ih =>
    obtain ⟨⟨retired, target⟩, mid, hretire, h⟩ := Op.bind_ok h
    obtain ⟨row, g, hrow, hid, hg, hmove, -⟩ := retireLabel_ok hretire
    obtain ⟨-, rfl⟩ := hmove rfl
    rw [ih h, generation?_withPossession]
    unfold retirements
    rw [countP_cons, hrow, Option.any_some, hid]
    show Option.map (Generation.next^[ledger.retirements labels id]) _ = _
    by_cases heq : id = retired
    · subst heq
      rw [if_pos rfl, hg]
      simp only [Option.map_some, decide_true, if_true]
      rfl
    · rw [if_neg heq]
      simp only [decide_eq_true_eq, Ne.symm heq, if_false, Nat.add_zero]
      rfl

/-- **What retiring does to both sides**: the destination keeps up with every identity it has. -/
theorem retireLabels_within :
    Run.Ends (retireLabels .move labels pending) here
      (fun pending' there => ∀ id, (here.dest.ledger.generation? id).isSome →
        ((∃ label ∈ labels, ∃ row, pending.identityByLabel label = some row ∧ row.id = id)
          ∨ Within pending here.dest.ledger id) → Within pending' there.dest.ledger id)
      fun _ => True := by
  induction labels generalizing here pending with
  | nil =>
    refine .pure fun id _ h => ?_
    rcases h with ⟨label, hlabel, -⟩ | h
    · cases hlabel
    · exact h
  | cons label labels ih =>
    unfold retireLabels
    split
    next => exact .check trivial fun _ h => absurd h (by simp)
    next retired target pending' hretire =>
      obtain ⟨row, g, hrow, hid, hg, hmove, -⟩ := retireLabel_ok hretire
      obtain ⟨rfl, rfl⟩ := hmove rfl
      refine .bind (M := fun _ there => there.dest.ledger
        = here.dest.ledger.withGenerationAtLeast retired g.next) ?_ ?_
      · refine .ignore_of_error
          (.on (onLedger_ends trivial fun _ ledger hrun => Op.modify_ok hrun)) fun left e q hq => ?_
        have hrun : setGenerationAtLeast retired g.next here.dest.ledger
          = (.ok (), here.dest.ledger.withGenerationAtLeast retired g.next) := rfl
        exact absurd (congrArg Prod.fst hq) (onLedger_no_error hrun left e)
      · intro _ there hdest
        refine .mono ih (fun pending'' after hafter id hsome hnamed => ?_) fun _ _ => trivial
        obtain ⟨g', hg'⟩ := Option.isSome_iff_exists.mp hsome
        have hraised : there.dest.ledger.generation? id = if id = retired then
            some (if g'.val < g.next.val then g.next else g') else some g' := by
          rw [hdest, generation?_withGenerationAtLeast, hg']
          rfl
        by_cases heq : id = retired
        · subst heq
          rw [if_pos rfl] at hraised
          refine hafter id (by rw [hraised]; rfl) (.inr ⟨g.next, _, ?_, hraised, ?_⟩)
          · rw [generation?_withPossession, if_pos rfl, hg]
            rfl
          · split
            · exact Nat.le_refl _
            next hlt => exact Nat.le_of_not_lt hlt
        · rw [if_neg heq] at hraised
          refine hafter id (by rw [hraised]; rfl) ?_
          rcases hnamed with ⟨label', hlabel', row', hrow', hid'⟩ | ⟨gs, gd, hgs, hgd, hle⟩
          · rcases mem_cons.mp hlabel' with rfl | hlabel'
            · rw [hrow] at hrow'
              obtain rfl := Option.some.inj hrow'
              exact absurd (hid'.symm.trans hid) heq
            · exact .inl ⟨label', hlabel', row', hrow', hid'⟩
          · refine .inr ⟨gs, gd, ?_, ?_, hle⟩
            · rw [generation?_withPossession, if_neg heq, hgs]
            · rw [hraised, ← hg', hgd]

/-! ## §2. Calls that complete a move. -/

def Ledger.finalized (ledger : Ledger) (tx : Id16) : Bool :=
  (ledger.txState tx).any fun state => state = .sourceFinalized || state = .completed

theorem finalized_setState (hrun : setState tx state ledger = (.ok u, ledger'))
    (h : (state = .sourceFinalized || state = .completed) = false) : ledger'.finalized tx = false := by
  obtain ⟨-, rfl⟩ := setState_ok hrun
  unfold finalized txState
  rw [tx_withState, if_pos rfl]
  cases ledger.tx tx with
  | none => rfl
  | some row => exact h

theorem Ledger.finalized_of_some (hrow : ledger.tx tx = some row) :
    ledger.finalized tx = (row.state = .sourceFinalized || row.state = .completed) := by
  unfold finalized txState
  rw [hrow]
  rfl

theorem Ledger.unfinalized (hrow : ledger.tx tx = some row) (hnot : ledger.finalized tx = false) :
    row.state ≠ .sourceFinalized ∧ row.state ≠ .completed := by
  rw [finalized_of_some hrow] at hnot
  simpa using hnot

theorem generation?_setState (h : setState tx state ledger = (.ok u, ledger')) (id : Id16) :
    ledger'.generation? id = ledger.generation? id := by
  obtain ⟨-, rfl⟩ := setState_ok h
  rfl

section Completions

variable {tx : Id16} {row : TxRow}

theorem finalizeAfterAck_generations {here : End} (hrow : here.ledger.tx tx = some row)
    (hmove : row.operation = .move) (hnot : here.ledger.finalized tx = false) :
    Run.MovesFrom (fun here there : End => there.ledger.finalized tx → ∀ id, there.ledger.generation? id
        = (here.ledger.generation? id).map (Generation.next^[here.ledger.retirements row.included id]))
      (finalizeAfterAck tx ackHash) here := by
  refine Run.Ends.mono (Q := fun there => there.ledger.finalized tx = false) ?_ (fun _ _ h => h)
    fun there hfalse htrue => absurd (hfalse.symm.trans htrue) (by simp)
  have hstate := unfinalized hrow hnot
  refine .look_bind (.pass_bind (requireTx_of_some hrow) ?_)
  rw [if_neg hstate.2, if_neg hstate.1]
  refine .require_bind hnot fun _ => ?_
  split
  · refine .bind (M := fun _ there => there.ledger.finalized tx = false)
      (onLedger_ends hnot fun _ _ hrun => finalized_setState hrun (by decide)) fun _ _ hthere => ?_
    exact .check hthere fun _ h => absurd h (by simp)
  · refine .bind (M := fun _ there => here.ledger = there.ledger) ?_ fun _ there hledger => ?_
    · refine .mono (scrubMovedSlots_ends hrow) (fun _ _ h => h.1.ledger) fun _ h => ?_
      rw [← h.ledger]
      exact hnot
    · refine onLedger_ends (by rw [← hledger]; exact hnot) fun _ ledger hrun _ id => ?_
      obtain ⟨_, mid, hretire, hrun⟩ := Op.bind_ok hrun
      obtain ⟨_, mid', hfinal, hrun⟩ := Op.bind_ok hrun
      rw [← hledger, hmove] at hretire
      rw [generation?_setState hrun, generation?_setState hfinal, retireAll_generation hretire]

/-- The destination has caught up with every identity it has that a row names. -/
def Pair.CaughtUp (here : Pair) (row : TxRow) (there : Pair) : Prop :=
  ∀ label ∈ row.included, ∀ found, here.source.ledger.identityByLabel label = some found →
    (here.dest.ledger.generation? found.id).isSome → Within there.source.ledger there.dest.ledger found.id

variable {here there : Pair}

theorem Pair.CaughtUp.congr {after : Pair} (h : here.CaughtUp row there)
    (hsource : ∀ id, after.source.ledger.generation? id = there.source.ledger.generation? id)
    (hdest : ∀ id, after.dest.ledger.generation? id = there.dest.ledger.generation? id) :
    here.CaughtUp row after := by
  intro label hlabel found hfound hsome
  obtain ⟨g, g', hg, hg', hle⟩ := h label hlabel found hfound hsome
  exact ⟨g, g', by rw [hsource, hg], by rw [hdest, hg'], hle⟩

theorem Pair.CaughtUp.unfinalized (hfalse : there.source.ledger.finalized tx = false)
    (htrue : there.source.ledger.finalized tx) : here.CaughtUp row there :=
  absurd (hfalse.symm.trans htrue) Bool.false_ne_true

variable (hrow : here.source.ledger.tx tx = some row) (hmove : row.operation = .move)
  (hnot : here.source.ledger.finalized tx = false)

include hrow hmove hnot

theorem retireSourceMaterial_caughtUp :
    Run.Ends (retireSourceMaterial tx) here (fun _ there => here.CaughtUp row there)
      fun there => there.source.ledger.finalized tx = false := by
  refine .look_bind (.check_bind hnot fun dest _ => ?_)
  refine .require_bind hnot fun _ => .pass_bind (requireTx_of_some hrow) ?_
  split
  · refine .bind (M := fun _ there => there.source.ledger.finalized tx = false)
      (.on (onLedger_ends hnot fun _ _ hrun => finalized_setState hrun (by decide)))
      fun _ there hthere => ?_
    refine .bind (M := fun _ after => after.source.ledger.finalized tx = false)
      (.on (onLedger_ends hthere fun _ _ _ => hthere)) fun _ after hafter => ?_
    exact .check hafter fun _ h => absurd h (by simp)
  · refine .on_bind (scrubMovedSlots_ends hrow) (fun there h => ?_) ?_
    · show there.ledger.finalized tx = false
      rw [← h.ledger]
      exact hnot
    · rintro _ there ⟨hstripped, -⟩
      have hnot' : there.ledger.finalized tx = false := by
        rw [← hstripped.ledger]
        exact hnot
      rw [hmove]
      refine .look_bind (.bind (.mono (retireLabels_ends.and retireLabels_within)
          (fun _ _ h => h) fun after h => ?_) ?_)
      · rw [h.1.source]
        exact hnot'
      · rintro pending after ⟨⟨-, hafter⟩, hwithin⟩
        refine .on (onLedger_ends (by rw [hafter.source]; exact hnot') fun _ ledger hrun => ?_)
        obtain ⟨_, mid, hmodify, hrun⟩ := Op.bind_ok hrun
        obtain rfl := Op.modify_ok hmodify
        intro label hlabel found hfound hsome
        rw [hstripped.ledger] at hfound
        obtain ⟨g, g', hg, hg', hle⟩ := hwithin found.id hsome (.inl ⟨label, hlabel, found, hfound, rfl⟩)
        exact ⟨g, g', (generation?_setState hrun found.id).trans hg, hg', hle⟩

theorem finalizeSource_caughtUp :
    Run.MovesFrom (fun here there => there.source.ledger.finalized tx → here.CaughtUp row there)
      (finalizeSource tx) here := by
  have hstate := unfinalized hrow hnot
  refine Run.Ends.look_bind (.pass_bind (requireTx_of_some hrow) ?_)
  rw [if_neg hstate.2]
  refine .bind (M := fun _ there => here.CaughtUp row there) ?_ fun _ there hthere => ?_
  · unfold letGo
    rw [if_pos hstate.1]
    exact .mono (retireSourceMaterial_caughtUp hrow hmove hnot) (fun _ _ h => h)
      fun _ => .unfinalized
  · refine .bind (M := fun _ after => here.CaughtUp row after) ?_ fun _ after hafter => ?_
    · refine .ignore (.on (onLedger_ends ⟨hthere, fun _ => hthere⟩ fun _ ledger hrun => ?_))
      exact hthere.congr (fun _ => rfl) (generation?_setState hrun)
    · refine .on (onLedger_ends (fun _ => hafter) fun _ ledger hrun _ => ?_)
      exact hafter.congr (generation?_setState hrun) fun _ => rfl

theorem recoverPair_caughtUp :
    Run.MovesFrom (fun here there => there.source.ledger.finalized tx → here.CaughtUp row there)
      (recoverPair tx) here := by
  have hstate := unfinalized hrow hnot
  refine Run.Ends.look_bind (.pass_bind (requireTx_of_some hrow) ?_)
  split
  · refine .bind (M := fun _ there => there.source.ledger.finalized tx = false)
      (.on (onLedger_ends (.unfinalized hnot) fun _ _ hrun => finalized_setState hrun (by decide)))
      fun _ there hthere => ?_
    refine .bind (M := fun _ after => after.source.ledger.finalized tx = false)
      (.on (onLedger_ends (.unfinalized hthere) fun _ _ _ => hthere)) fun _ after hafter => ?_
    exact .pure (.unfinalized hafter)
  split
  · exact .pure (.unfinalized hnot)
  rw [if_neg hstate.2, if_neg hstate.1]
  split
  · exact .bind (finalizeSource_caughtUp hrow hmove hnot) fun _ _ h => .pure h
  · refine .bind (M := fun _ there => there.source.ledger.finalized tx = false) ?_
      fun _ _ h => .pure (.unfinalized h)
    refine .look_bind (.require_bind (.unfinalized hnot) fun _ => ?_)
    refine .on_bind (M := fun _ _ => True) (N := fun _ => True) ?_ (fun _ _ => .unfinalized hnot)
      fun _ there _ => ?_
    · intro left
      split <;> trivial
    · exact .look_bind (.when (fun _ => .on (onLedger_ends (.unfinalized hnot) fun _ _ hrun =>
        finalized_setState hrun (by decide))) fun _ => hnot)

end Completions

/-! ## §3. Calls that take a package in. -/

def Ledger.Knows (ledger : Ledger) (ids : List Id16) : Prop :=
  ∀ id ∈ ids, (ledger.generation? id).isSome

theorem Ledger.Knows.grown (h : a.Knows ids) (hgrown : Grown a b) : b.Knows ids := by
  intro id hid
  obtain ⟨g, hg⟩ := Option.isSome_iff_exists.mp (h id hid)
  obtain ⟨g', hg', -⟩ := hgrown.generation hg
  exact Option.isSome_iff_exists.mpr ⟨g', hg'⟩

/-- A device that commits to a transaction only together with these identities. -/
structure TakesIn (tx : Id16) (ids : List Id16) (here there : End) : Prop where
  grown : Grown here.ledger there.ledger
  key_eq : there.container.key = here.container.key
  taken : here.ledger.destinationCommitted tx = false → there.ledger.destinationCommitted tx = true →
    there.ledger.Knows ids

instance (tx : Id16) (ids : List Id16) : IsPreorder End (TakesIn tx ids) where
  refl here := ⟨Grown.refl _, rfl, fun hfalse htrue => absurd (hfalse.symm.trans htrue) (by simp)⟩
  trans a b c hab hbc := by
    refine ⟨hab.grown.trans hbc.grown, hbc.key_eq.trans hab.key_eq, fun hfalse htrue => ?_⟩
    cases hmid : b.ledger.destinationCommitted tx with
    | false => exact hbc.taken hmid htrue
    | true => exact (hab.taken hfalse hmid).grown hbc.grown

section TakesIn

variable {tx : Id16} {ids : List Id16} {here : End} {there : End} {passphrases : String → Option String}
  {limit : Option Nat} {allow : Bool}

theorem Ledger.destinationCommitted_of_some (hrow : ledger.tx tx = some row) :
    ledger.destinationCommitted tx = row.state.settled := by
  unfold destinationCommitted txState
  rw [hrow]
  rfl

theorem TakesIn.of_noted (h : Noted here there) (hsettled : there.ledger.destinationCommitted tx →
      here.ledger.destinationCommitted tx) : TakesIn tx ids here there :=
  ⟨h.ledger.sameHeld.grown, h.container.key_eq, fun hfalse htrue =>
    absurd (hfalse.symm.trans (hsettled htrue)) (by simp)⟩

theorem takesIn_of_noted {α : Type} {m : Run End Error α} (hnoted : Run.MovesFrom Noted m here)
    (hsettled : Run.MovesFrom (fun here there => there.ledger.destinationCommitted tx →
      here.ledger.destinationCommitted tx) m here) : Run.MovesFrom (TakesIn tx ids) m here :=
  Run.Ends.mono (hnoted.and hsettled) (fun _ _ h => .of_noted h.1 h.2) fun _ h => .of_noted h.1 h.2

variable [Crypto] [KeyPairs]

/-- A package of a transaction with entries of these identities, if it opens here at all. -/
def Carries (source : DeviceKey) (package : Bytes) (tx : Id16) (ids : List Id16) (here : End) : Prop :=
  ∀ bundle, openBundle package source here.container.deviceId = .ok bundle →
    bundle.id = tx ∧ ∀ id ∈ ids, ∃ entry ∈ bundle.entries, entry.identityId = id

variable {source : DeviceKey} {package : Bytes}

section

variable (h : Carries source package tx ids here)

include h

theorem Carries.of_key (hkey : there.container.key = here.container.key) :
    Carries source package tx ids there := by
  intro bundle hbundle
  rw [show there.container.deviceId = here.container.deviceId from
    congrArg DeviceKey.deviceId hkey] at hbundle
  exact h bundle hbundle

theorem stageDestination_takesIn :
    Run.MovesFrom (TakesIn tx ids) (stageDestination source package allow) here := by
  refine takesIn_of_noted stageDestination_noted ?_
  refine Run.Ends.look_bind (Run.Ends.check_bind id fun bundle hbundle => ?_)
  obtain ⟨rfl, -⟩ := h bundle hbundle
  refine .require_bind id fun _ => .check_bind id fun _ _ => ?_
  split
  next hsome =>
    refine onLedger_ends id fun _ ledger hrun hcommitted => ?_
    obtain rfl := Op.modify_ok hrun
    unfold txRole at hsome
    rw [Option.isSome_map] at hsome
    obtain ⟨row, hrow⟩ := Option.isSome_iff_exists.mp hsome
    have hstaged : (here.ledger.withRestaged bundle.id (stagedRow bundle package)).tx bundle.id
        = some { stagedRow bundle package with id := row.id, operation := row.operation } := by
      rw [tx_withRestaged, if_pos rfl, hrow]
      rfl
    exact absurd ((destinationCommitted_of_some hstaged).symm.trans hcommitted) Bool.false_ne_true
  next =>
    refine onLedger_ends id fun _ ledger hrun hcommitted => ?_
    obtain ⟨hnew, rfl⟩ := insertTx_ok hrun
    have hstaged : (here.ledger.withTx (stagedRow bundle package)).tx bundle.id
        = some (stagedRow bundle package) := by
      rw [tx_withTx hnew]
      exact if_pos rfl
    exact absurd ((destinationCommitted_of_some hstaged).symm.trans hcommitted) Bool.false_ne_true

theorem writeDestinationSlots_takesIn :
    Run.MovesFrom (TakesIn tx ids) (writeDestinationSlots source package passphrases limit) here := by
  refine takesIn_of_noted writeDestinationSlots_noted ?_
  refine Run.Ends.look_bind (Run.Ends.check_bind id fun bundle hbundle => ?_)
  obtain ⟨rfl, -⟩ := h bundle hbundle
  refine .check_bind id fun row hrow => .require_bind id fun _ => ?_
  refine .bind (M := fun _ there => there.ledger.txState bundle.id = some .writing)
    (onLedger_ends id fun _ ledger hrun => ?_) fun _ there hthere => ?_
  · obtain ⟨⟨found, hfound⟩, rfl⟩ := setState_ok hrun
    show Option.map TxRow.state _ = _
    rw [tx_withState, if_pos rfl, hfound]
    rfl
  · have hwriting : ∀ {after : End}, after.ledger.txState bundle.id = there.ledger.txState bundle.id →
        after.ledger.destinationCommitted bundle.id →
        here.ledger.destinationCommitted bundle.id := by
      intro after hafter hcommitted
      unfold destinationCommitted at hcommitted
      rw [hafter, hthere] at hcommitted
      exact absurd hcommitted (by decide)
    exact Run.Ends.mono (writeSlots_of_bundle hbundle row) (fun _ _ h => hwriting h.ledger.state_eq)
      fun _ h => hwriting h.ledger.state_eq

end

omit [KeyPairs] [Crypto] in
theorem Ledger.Taken.generation (h : ledger.Taken entry) :
    (ledger.generation? entry.identityId).isSome := by
  obtain ⟨held, hheld, -⟩ := h.held
  unfold generation?
  rw [hheld]
  rfl

theorem commitDestinationRows_takesIn (h : Carries source package tx ids here) :
    Run.MovesFrom (TakesIn tx ids) (commitDestinationRows source package allow) here := by
  refine .look_bind (.check_bind fun bundle hbundle => ?_)
  obtain ⟨-, hentries⟩ := h bundle hbundle
  refine .check_bind fun row _ => .require_bind fun _ => ?_
  split
  · exact Run.MovesFrom.pure ()
  · refine Run.MovesFrom.require_bind fun _ => onLedger_ends (Std.Refl.refl here) fun _ ledger hrun => ?_
    obtain ⟨-, hlater, htaken, -⟩ := commitBundle_ok (P := fun _ => True) (fun _ _ => trivial) hrun
    refine ⟨hlater.grown, rfl, fun _ _ id hid => ?_⟩
    obtain ⟨entry, hentry, rfl⟩ := hentries id hid
    exact (htaken entry hentry).generation

omit [KeyPairs] [Crypto] in
theorem acknowledge_takesIn : Run.MovesFrom (TakesIn tx ids) (acknowledge other) here := by
  refine .look_bind (.check_bind fun row hrow => ?_)
  split
  · exact .pure ()
  · refine Run.MovesFrom.require_bind fun hstate => ?_
    refine onLedger_ends (Std.Refl.refl here) fun _ ledger hrun => ?_
    refine TakesIn.of_noted ⟨setState_later rfl hrun, Gains.refl _⟩ fun hcommitted => ?_
    obtain ⟨-, rfl⟩ := setState_ok hrun
    by_cases heq : tx = other
    · subst heq
      rw [destinationCommitted_of_some (requireTx_ok hrow)]
      rw [decide_eq_true_eq] at hstate
      rw [hstate]
      rfl
    · unfold destinationCommitted txState at hcommitted ⊢
      rwa [tx_withState, if_neg heq] at hcommitted

theorem takesIn_delivery :
    Delivery (TakesIn tx ids) (Carries source package tx ids) source package :=
  ⟨fun hmoved h => h.of_key hmoved.key_eq, fun _ => stageDestination_takesIn,
    fun _ _ => writeDestinationSlots_takesIn, fun _ => commitDestinationRows_takesIn,
    fun _ => acknowledge_takesIn⟩

end TakesIn

/-! ## §4. The story of a move. -/

/-- What happens to a move, with any calls before the package arrives and before the move ends. -/
structure MoveStory (ι : Type) where
  request : Request
  leftPrepare : Option Nat
  prepared : PreparedTransfer
  before : List (Action ι × Option Nat)
  delivery : Action ι
  leftDelivery : Option Nat
  between : List (Action ι × Option Nat)
  ending : Action ι
  leftEnding : Option Nat

def Action.Finalizes {ι : Type} (source dest : ι) (tx : Id16) : Action ι → Prop
  | .finalizeSource source' dest' tx' | .finalizeAfterAck source' dest' tx' _
  | .recover source' dest' tx' => source' = source ∧ dest' = dest ∧ tx' = tx
  | _ => False

instance {ι : Type} [DecidableEq ι] (source dest : ι) (tx : Id16) :
    DecidablePred (Action.Finalizes source dest tx)
  | .finalizeSource .. | .finalizeAfterAck .. | .recover .. => inferInstanceAs (Decidable (_ ∧ _ ∧ _))
  | .enroll .. | .prepare .. | .stage .. | .writeSlots .. | .commitRows .. | .acknowledge .. | .accept ..
  | .abort .. => .isFalse id

/-- Whether a call that completes a transaction has the destination at hand. -/
def Action.reachesDest {ι : Type} : Action ι → Bool
  | .finalizeAfterAck .. => false
  | _ => true

section Story

variable [Crypto] [KeyPairs] {ι : Type} [DecidableEq ι]

namespace MoveStory

section

variable (story : MoveStory ι) (world : World ι) (source : ι)

def atDelivery : World ι :=
  ((Action.prepare source story.request).exec story.leftPrepare world).run story.before

def delivered : World ι :=
  story.delivery.exec story.leftDelivery (story.atDelivery world source)

def atEnding : World ι :=
  (story.delivered world source).run story.between

def ended : World ι :=
  story.ending.exec story.leftEnding (story.atEnding world source)

end

/-- A move that `source` prepares, `dest` takes in and `source` completes. -/
@[mk_iff]
structure Completes (story : MoveStory ι) (world : World ι) (source dest : ι) : Prop where
  apart : source ≠ dest
  isMove : story.request.operation = .move
  prepares : (prepare story.request ⟨world source, story.leftPrepare⟩).1 = .ok story.prepared
  delivers : story.delivery.Delivers dest (world source).container.key story.prepared.package
  notYet : (story.atDelivery world source dest).ledger.destinationCommitted story.prepared.bundle.id
    = false
  taken : (story.delivered world source dest).ledger.destinationCommitted story.prepared.bundle.id = true
  /-- The row of the transaction is still the source's own. -/
  own : (story.atEnding world source source).ledger.txRole story.prepared.bundle.id = some .source
  unfinished : (story.atEnding world source source).ledger.finalized story.prepared.bundle.id = false
  finalizes : story.ending.Finalizes source dest story.prepared.bundle.id
  completed : (story.ended world source source).ledger.finalized story.prepared.bundle.id = true

instance (story : MoveStory ι) (world : World ι) (source dest : ι) :
    Decidable (story.Completes world source dest) :=
  decidable_of_iff' _ (completes_iff story world source dest)

variable {story : MoveStory ι} {world : World ι} {source dest : ι}

structure Pending (story : MoveStory ι) (world : World ι) (source dest : ι) (row : TxRow)
    (identity : IdentityRow) : Prop where
  tx_eq : (story.atEnding world source source).ledger.tx story.prepared.bundle.id = some row
  move : row.operation = .move
  included_eq : row.included = story.prepared.secretLabels
  known : ∀ {label}, (world source).ledger.identityByLabel label = some identity →
    (story.atEnding world source source).ledger.identityByLabel label = some identity
  held : ((story.atEnding world source dest).ledger.generation? identity.id).isSome

theorem Completes.pending (h : story.Completes world source dest)
    (hlabel : label ∈ story.prepared.secretLabels) :
    ∃ row identity, (world source).ledger.identityByLabel label = some identity
      ∧ story.Pending world source dest row identity := by
  obtain ⟨hpacked, -, hnew, hthere⟩ := prepare_ends.of_ok (Prod.ext h.prepares rfl)
  have hstart : (Action.prepare source story.request).exec story.leftPrepare world source
      = { world source with ledger := (world source).ledger.withTx story.prepared.row } := by
    show Function.update world source _ source = _
    rw [Function.update_self]
    exact hthere
  have hprepared : ((Action.prepare source story.request).exec story.leftPrepare world source).ledger.tx
      story.prepared.bundle.id = some story.prepared.row := by
    rw [hstart]
    exact (tx_withTx hnew).trans (if_pos rfl)
  -- the source's ledger, from the preparation to the end
  have hbefore := fun k => World.run_onward
    ((Action.prepare source story.request).exec story.leftPrepare world) story.before k
  have hdelivery := fun k => Action.exec_onward
    (story.delivery.admits_true (story.atDelivery world source)) story.leftDelivery k
  have hbetween := fun k => World.run_onward (story.delivered world source) story.between k
  have hsource := (hbefore source).trans ((hdelivery source).trans (hbetween source))
  obtain ⟨row, hrow, hfollows⟩ := hsource.ledger.follows hprepared
  have hrole : row.role = story.prepared.row.role := by
    have hown := h.own
    unfold txRole at hown
    rw [show (story.atEnding world source source).ledger.tx story.prepared.bundle.id = some row
      from hrow] at hown
    exact Option.some.inj hown
  -- what the package carries
  obtain ⟨entry, hentry, rfl, identity, _, hhands⟩ := hpacked.entry_of_label hlabel
  have hcarries : Carries (world source).container.key story.prepared.package
      story.prepared.bundle.id [identity.id] (story.atDelivery world source dest) := by
    intro bundle hbundle
    obtain rfl := openBundle_encode hpacked.encodes hbundle
    refine ⟨rfl, fun id hid => ⟨entry, (mem_filter.mp hentry).1, ?_⟩⟩
    rw [mem_singleton.mp hid, hhands.id_eq]
  have htaken := (takesIn_delivery.exec h.delivers hcarries story.leftDelivery).taken h.notYet h.taken
  refine ⟨row, identity, hhands.identity, hrow, ?_, ?_, fun {label} hknown => ?_, ?_⟩
  · exact hfollows.operation_eq.trans (hpacked.operation_eq.trans h.isMove)
  · exact (hfollows.same_package hrole).2.trans hpacked.row_included
  · refine hsource.ledger.grown.byLabel ?_
    rw [hstart]
    exact hknown
  · exact htaken.grown (hbetween dest).ledger.grown identity.id (.head _)

end MoveStory

variable {world : World ι} {source dest : ι} {tx : Id16} {row : TxRow} {action : Action ι}
    {left : Option Nat}

section

variable (hne : source ≠ dest) (hfinalizes : action.Finalizes source dest tx)
  (hrow : (world source).ledger.tx tx = some row) (hmove : row.operation = .move)
  (hnot : (world source).ledger.finalized tx = false)
  (hdone : (action.exec left world source).ledger.finalized tx)

include hne hfinalizes hrow hmove hnot hdone

theorem Action.exec_caughtUp (hreaches : action.reachesDest) :
    Pair.CaughtUp ⟨world source, world dest⟩ row
      ⟨action.exec left world source, action.exec left world dest⟩ := by
  have hboth : ∀ {α : Type} {m : Run Pair Error α},
      (∀ {here : Pair}, here.source.ledger.tx tx = some row → here.source.ledger.finalized tx = false →
        Run.MovesFrom (fun here there => there.source.ledger.finalized tx → here.CaughtUp row there)
          m here) →
      (world.onBoth source dest m left source).ledger.finalized tx →
      Pair.CaughtUp ⟨world source, world dest⟩ row
        ⟨world.onBoth source dest m left source, world.onBoth source dest m left dest⟩ := by
    intro α m hends hdone
    rw [World.onBoth_source hne] at hdone ⊢
    rw [World.onBoth_dest hne]
    exact (hends hrow hnot).after left hdone
  cases action with
  | finalizeSource =>
    obtain ⟨rfl, rfl, rfl⟩ := hfinalizes
    exact hboth (fun hrow hnot => finalizeSource_caughtUp hrow hmove hnot) hdone
  | recover =>
    obtain ⟨rfl, rfl, rfl⟩ := hfinalizes
    exact hboth (fun hrow hnot => recoverPair_caughtUp hrow hmove hnot) hdone
  | finalizeAfterAck => exact absurd hreaches (by simp [Action.reachesDest])
  | _ => exact absurd hfinalizes (by simp [Action.Finalizes])

theorem Action.exec_generations (hreaches : action.reachesDest = false) :
    action.exec left world dest = world dest
      ∧ ∀ id, (action.exec left world source).ledger.generation? id
        = ((world source).ledger.generation? id).map
            (Generation.next^[(world source).ledger.retirements row.included id]) := by
  cases action with
  | finalizeAfterAck source' dest' tx' ackHash =>
    obtain ⟨rfl, rfl, rfl⟩ := hfinalizes
    have hself : Action.exec left world (.finalizeAfterAck source' dest' tx' ackHash) source'
        = (Transfer.finalizeAfterAck tx' ackHash).after left (world source') :=
      Function.update_self ..
    refine ⟨Function.update_of_ne hne.symm .., ?_⟩
    rw [hself] at hdone ⊢
    exact (finalizeAfterAck_generations hrow hmove hnot).after left hdone
  | finalizeSource => exact absurd hreaches (by simp [Action.reachesDest])
  | recover => exact absurd hreaches (by simp [Action.reachesDest])
  | _ => exact absurd hfinalizes (by simp [Action.Finalizes])

end

omit [KeyPairs] [Crypto] in
theorem Ledger.classifyIncoming_replay (h : ledger.classifyIncoming entry = .ok .replay) :
    ∃ g, ledger.generation? entry.identityId = some g ∧ entry.generation.val < g.val := by
  unfold classifyIncoming at h
  split at h
  next => cases h
  next =>
    split at h
    next =>
      split at h
      next => cases h
      next =>
        obtain ⟨g, hg, h⟩ := try_ok h
        split at h
        next hlt => exact ⟨g, generationOf_ok hg, hlt⟩
        next => cases h
    next => split at h <;> cases h

/-- **When a completed move can be undone**: if the destination was at hand when it was completed, or
was already as far ahead as the ghost would be.  Then no entry at the destination's generation is a
replay at the source. -/
theorem World.move_undoable_iff (world : World ι) (source dest : ι) (story : MoveStory ι)
    (h : story.Completes world source dest) (label : String)
    (hlabel : label ∈ story.prepared.secretLabels) :
    ∃ identity, (world source).ledger.identityByLabel label = some identity
      ∧ (Within (story.ended world source source).ledger (story.ended world source dest).ledger identity.id
        ↔ story.ending.reachesDest = true
          ∨ ∃ g g', (story.atEnding world source source).ledger.generation? identity.id = some g
            ∧ (story.atEnding world source dest).ledger.generation? identity.id = some g'
            ∧ (Generation.next^[(story.atEnding world source source).ledger.retirements
                story.prepared.secretLabels identity.id] g).val ≤ g'.val)
      ∧ (Within (story.ended world source source).ledger (story.ended world source dest).ledger identity.id →
        ∀ entry g', entry.identityId = identity.id →
          (story.ended world source dest).ledger.generation? identity.id = some g' →
          g'.val ≤ entry.generation.val →
          (story.ended world source source).ledger.classifyIncoming entry ≠ .ok .replay) := by
  obtain ⟨row, identity, hidentity, hpending⟩ := h.pending hlabel
  refine ⟨identity, hidentity, ?_, ?_⟩
  · have hknown := hpending.known hidentity
    have hmember : label ∈ row.included := by
      rw [hpending.included_eq]
      exact hlabel
    obtain ⟨g', hg'⟩ := Option.isSome_iff_exists.mp hpending.held
    cases hreaches : story.ending.reachesDest with
    | true =>
      refine iff_of_true ?_ (.inl rfl)
      exact Action.exec_caughtUp h.apart h.finalizes hpending.tx_eq hpending.move h.unfinished
        h.completed hreaches label hmember identity hknown hpending.held
    | false =>
      obtain ⟨hdest, hsource⟩ := Action.exec_generations h.apart h.finalizes hpending.tx_eq
        hpending.move h.unfinished h.completed hreaches
      have hghost := hsource identity.id
      rw [hpending.included_eq] at hghost
      unfold Within MoveStory.ended
      rw [hdest, hghost, hg']
      simp only [Bool.false_eq_true, false_or, Option.map_eq_some_iff]
      constructor
      · rintro ⟨_, g'', ⟨g, hg, rfl⟩, hg'', hle⟩
        exact ⟨g, g'', hg, hg'', hle⟩
      · rintro ⟨g, g'', hg, hg'', hle⟩
        exact ⟨_, g'', ⟨g, hg, rfl⟩, hg'', hle⟩
  · rintro ⟨g, g', hg, hg', hle⟩ entry found hid hfound hentry hreplay
    obtain ⟨ghost, hghost, hlt⟩ := classifyIncoming_replay hreplay
    rw [hid, hg] at hghost
    rw [hg'] at hfound
    cases hghost
    cases hfound
    omega

end Story

namespace Sample

attribute [local instance] crypto keyPairs

/-- What device 1 prepares when it moves `M` to device 2. -/
def preparedMove : PreparedTransfer :=
  match (prepare (request 2 2 .move) ⟨enrolled false, none⟩).1 with
  | .ok prepared => prepared
  | .error _ => ⟨⟨idM, .move, .keyOnly, idM, idM, "", "", []⟩, [], [], []⟩

/-- The move, accepted by device 2 and completed by `ending`. -/
def moveStory (ending : Action Bool) : MoveStory Bool where
  request := request 2 2 .move
  leftPrepare := none
  prepared := preparedMove
  before := []
  delivery := .accept true (enrolled false).container.key preparedMove.package passphrases false
  leftDelivery := none
  between := []
  ending := ending
  leftEnding := none

def finalizedMove : MoveStory Bool := moveStory (.finalizeSource false true (.ofNat 16 2))

theorem finalized_move_undoable :
    ∃ identity, (enrolled false).ledger.identityByLabel "M" = some identity
      ∧ Within (finalizedMove.ended enrolled false false).ledger
          (finalizedMove.ended enrolled false true).ledger identity.id := by
  obtain ⟨hcompletes, hlabel⟩ : finalizedMove.Completes enrolled false true
      ∧ "M" ∈ finalizedMove.prepared.secretLabels := by
    decide +kernel
  obtain ⟨identity, hidentity, hiff, -⟩ := World.move_undoable_iff enrolled false true finalizedMove
    hcompletes "M" hlabel
  exact ⟨identity, hidentity, hiff.mpr (.inl rfl)⟩

def ackedMove : MoveStory Bool :=
  moveStory (.finalizeAfterAck false true (.ofNat 16 2) (sha256 preparedMove.package))

/-- **Completed from an acknowledgement, the move cannot be undone**: device 1 refuses `M` back as a
replay. -/
theorem acked_move_stuck :
    ackedMove.Completes enrolled false true ∧ "M" ∈ ackedMove.prepared.secretLabels
      ∧ ¬ Within (ackedMove.ended enrolled false false).ledger (ackedMove.ended enrolled false true).ledger
          idM
      ∧ (stageDestination (device 2 []).key
          (packageAt (ackedMove.ended enrolled false true) (request 9 1 .move)) false
          ⟨ackedMove.ended enrolled false false, none⟩).1 = .error (some .transferReplay) := by
  obtain ⟨hcompletes, hlabel, hsource, hdest, hback⟩ :
      ackedMove.Completes enrolled false true ∧ "M" ∈ ackedMove.prepared.secretLabels
        ∧ (ackedMove.ended enrolled false false).ledger.generation? idM = some Generation.first.next
        ∧ (ackedMove.ended enrolled false true).ledger.generation? idM = some Generation.first
        ∧ (stageDestination (device 2 []).key
          (packageAt (ackedMove.ended enrolled false true) (request 9 1 .move)) false
          ⟨ackedMove.ended enrolled false false, none⟩).1 = .error (some .transferReplay) := by
    decide +kernel
  refine ⟨hcompletes, hlabel, ?_, hback⟩
  rintro ⟨g, g', hg, hg', hle⟩
  rw [hsource] at hg
  rw [hdest] at hg'
  cases hg
  obtain rfl := Option.some.inj hg'
  exact absurd hle (by decide)

end Sample

end KeyQuorum.Transfer
