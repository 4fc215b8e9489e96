/-
  **A MOVED KEY STAYS MOVED.**

  A ghost has the generation of its last move.  A package that carries an
  older generation of the identity is a replay: it is refused when it is
  staged and once more inside the transaction that would take it in, so no
  order of calls lets it through.
-/
import KeyQuorum.Transfer.World

namespace KeyQuorum.Transfer

open Foundation

section Stale

variable [Crypto] [KeyPairs]

/-- A package with an entry of an identity whose generation is below `g`. -/
def Stale (source : DeviceKey) (package : Bytes) (destination id : Id16) (g : Generation) : Prop :=
  ∃ bundle, openBundle package source destination = .ok bundle
    ∧ ∃ entry ∈ bundle.entries, entry.identityId = id ∧ entry.generation.val < g.val

instance {source : DeviceKey} {package : Bytes} {destination id : Id16} {g : Generation} :
    Decidable (Stale source package destination id g) :=
  inferInstanceAs (Decidable (∃ bundle, openBundle package source destination = .ok bundle ∧ _))

/-- A device that has an identity as a ghost of generation `g`. -/
structure End.Ghost (here : End) (id : Id16) (g : Generation) : Prop where
  known : (here.ledger.identityById id).isSome
  held : here.ledger.possessions.find? id = some ⟨id, .ghost, g⟩

/-- A device that knows an identity, at generation `g` or later. -/
structure KnowsFrom (here : End) (id : Id16) (g : Generation) : Prop where
  known : (here.ledger.identityById id).isSome
  generation : ∃ g', here.ledger.generation? id = some g' ∧ g.val ≤ g'.val

omit [Crypto] [KeyPairs] in
theorem KnowsFrom.grown {id : Id16} (h : KnowsFrom here id g)
    (hgrown : Grown here.ledger there.ledger) : KnowsFrom there id g := by
  obtain ⟨row, hrow⟩ := Option.isSome_iff_exists.mp h.known
  obtain ⟨g', hg', hle⟩ := h.generation
  obtain ⟨g'', hg'', hle'⟩ := hgrown.generation hg'
  exact ⟨Option.isSome_iff_exists.mpr ⟨row, hgrown.byId hrow⟩, g'', hg'', Nat.le_trans hle hle'⟩

/-- The device is the same, and so are the identities and who holds them. -/
structure Unmoved (here there : End) : Prop where
  held : SameHeld here.ledger there.ledger
  key_eq : there.container.key = here.container.key

omit [Crypto] [KeyPairs] in
theorem Noted.unmoved (h : Noted here there) : Unmoved here there :=
  ⟨h.ledger.sameHeld, h.container.key_eq⟩

instance : IsPreorder End Unmoved where
  refl _ := ⟨⟨rfl, rfl⟩, rfl⟩
  trans _ _ _ hab hbc :=
    ⟨⟨hbc.held.identities_eq.trans hab.held.identities_eq,
      hbc.held.possessions_eq.trans hab.held.possessions_eq⟩, hbc.key_eq.trans hab.key_eq⟩

variable {source : DeviceKey} {package : Bytes} {id : Id16} {g : Generation} {here : End}

theorem commitDestinationRows_stale (hknows : KnowsFrom here id g)
    (hstale : Stale source package here.container.deviceId id g) :
    Run.MovesFrom Unmoved (commitDestinationRows source package allow) here := by
  refine .look_bind (.check_bind fun bundle hbundle => ?_)
  refine .check_bind fun row _ => .require_bind fun _ => ?_
  split
  · exact Run.MovesFrom.pure ()
  · refine Run.MovesFrom.require_bind fun _ => onLedger_ends (Std.Refl.refl here) fun u ledger hrun => ?_
    -- the transaction would have to accept the old entry
    obtain ⟨found, hfound, entry, hentry, hid, hlt⟩ := hstale
    rw [hbundle] at hfound
    cases hfound
    obtain ⟨hfits, -⟩ := Ledger.commitBundle_ok (P := fun _ => True) (fun _ _ => trivial) hrun
    obtain ⟨known, hknown⟩ := Option.isSome_iff_exists.mp hknows.known
    obtain ⟨g', hg', hle⟩ := hknows.generation
    subst hid
    have := (hfits entry hentry).generation_le hknown hg'
    omega

theorem stale_delivery : Delivery Unmoved
    (fun here => KnowsFrom here id g ∧ Stale source package here.container.deviceId id g)
    source package := by
  refine ⟨fun {here there} hmoved ⟨hknows, hstale⟩ => ⟨hknows.grown hmoved.held.grown, ?_⟩,
    fun _ _ => stageDestination_noted.mono fun _ => Noted.unmoved,
    fun _ _ _ => writeDestinationSlots_noted.mono fun _ => Noted.unmoved,
    fun _ h => commitDestinationRows_stale h.1 h.2, fun _ => acknowledge_shifts.mono fun _ => Noted.unmoved⟩
  rwa [show there.container.deviceId = here.container.deviceId from
    congrArg DeviceKey.deviceId hmoved.key_eq]

end Stale

section Runs

variable [Crypto] [KeyPairs] {ι : Type} [DecidableEq ι]

/-- **Generations never fall, and a stale package never brings a moved key back**: not in any run,
wherever its calls are cut short, whether the package was staged before the move or after. -/
theorem World.stale_never_activates (world : World ι) (calls : List (Action ι × Option Nat)) (here : ι)
    (id : Id16) (g : Generation) (hg : (world here).ledger.generation? id = some g) :
    (∃ g', (world.run calls here).ledger.generation? id = some g' ∧ g.val ≤ g'.val)
      ∧ ((world here).Ghost id g →
          ∀ (source : DeviceKey) (package : Bytes) (action : Action ι) (left : Option Nat),
            action.Delivers here source package →
            Stale source package (world here).container.deviceId id g →
            (action.exec left (world.run calls) here).ledger.possessions.find? id
              = (world.run calls here).ledger.possessions.find? id) := by
  have honward := World.run_onward world calls here
  refine ⟨honward.ledger.grown.generation hg, fun hghost source package action left hdelivers hstale => ?_⟩
  have hknows : KnowsFrom (world.run calls here) id g :=
    KnowsFrom.grown ⟨hghost.known, g, hg, Nat.le_refl _⟩ honward.ledger.grown
  have hunmoved := stale_delivery.exec hdelivers ⟨hknows, by rwa [honward.deviceId_eq]⟩ left
  rw [hunmoved.held.possessions_eq]

end Runs

namespace Sample

attribute [local instance] crypto keyPairs

/-- `M` has moved to device 2: device 1 has a ghost of generation 2. -/
def moved : World Bool := enrolled.run move

/-- A copy of `M` at generation 1, made by a third device for device 1. -/
def staleCopy : Bytes := packageAt ⟨(enrolled false).ledger, device 3 [slotM]⟩ (request 3 1 .copy)

theorem stale_copy_never_activates :
    (∃ g', (moved.run [] false).ledger.generation? idM = some g' ∧ Generation.first.next.val ≤ g'.val)
      ∧ ((Action.accept false (device 3 []).key staleCopy passphrases false).exec none (moved.run [])
          false).ledger.possessions.find? idM = (moved.run [] false).ledger.possessions.find? idM := by
  obtain ⟨hg, hknown, hheld, hstale⟩ :
      (moved false).ledger.generation? idM = some Generation.first.next
        ∧ ((moved false).ledger.identityById idM).isSome
        ∧ (moved false).ledger.possessions.find? idM = some ⟨idM, .ghost, Generation.first.next⟩
        ∧ Stale (device 3 []).key staleCopy (moved false).container.deviceId idM
            Generation.first.next := by
    decide +kernel
  have h := World.stale_never_activates moved [] false idM Generation.first.next hg
  exact ⟨h.1, h.2 ⟨hknown, hheld⟩ (device 3 []).key staleCopy _ none ⟨rfl, rfl, rfl⟩ hstale⟩

end Sample

end KeyQuorum.Transfer
