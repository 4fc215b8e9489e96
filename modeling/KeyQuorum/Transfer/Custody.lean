/-
  **WHEN NO KEY IS LOST.**

  Only the calls that end a transaction delete slots, and each of them goes
  by the transaction's own rows: `finalize_source` and `recover_pair` by a
  destination that once committed, `finalize_after_ack` by an
  acknowledgement that was once given, `abort_transfer` by the labels once
  noted as installed.  None looks at what the other end holds now, so an
  old transaction deletes the last copy of a key that a later one has
  moved.
-/
import KeyQuorum.Transfer.World

namespace KeyQuorum.Transfer

open List Foundation

/-! ## §1. Containers. -/

variable {scrubbed undone : List String}

section Holds

variable [KeyPairs]

/-- The other container has the keys of every slot of these labels, under the same label. -/
def Covered (labels : List String) (container other : Container) : Prop :=
  ∀ slot ∈ container.slots, slot.label ∈ labels →
    other.slotMatches slot.label slot.encryptionSecret slot.signingSecret = .ok true

instance (labels : List String) (container other : Container) :
    Decidable (Covered labels container other) := by
  unfold Covered
  infer_instance

variable {container : Container} {keys : Digest × Digest}

theorem Gains.holds (h : Gains container container') (hheld : container.Holds keys) :
    container'.Holds keys := by
  obtain ⟨slot, hslot, hkeys⟩ := hheld
  obtain ⟨extra, hslots⟩ := h.slots
  refine ⟨slot, ?_, hkeys⟩
  rw [hslots]
  exact mem_append_left extra hslot

theorem Sheds.holds (h : Sheds labels container container') (hcovered : Covered labels container other)
    (hheld : container.Holds keys) :
    container'.Holds keys ∨ other.Holds keys := by
  obtain ⟨slot, hslot, hkeys⟩ := hheld
  obtain ⟨gone, hgone, hslots⟩ := h.slots
  by_cases hlabel : slot.label ∈ gone
  · right
    have := Container.holds_of_slotMatches (hcovered slot hslot (hgone slot.label hlabel))
    rwa [show (_, _) = keys from hkeys] at this
  · left
    refine ⟨slot, ?_, hkeys⟩
    rw [hslots]
    exact mem_filter.mpr ⟨hslot, by simpa using hlabel⟩

theorem Sheds.holds_nil (h : Sheds [] container container') (hheld : container.Holds keys) :
    container'.Holds keys :=
  (h.holds (nofun : Covered [] container container') hheld).elim id id

theorem Settled.holds (h : Settled P scrubbed undone here there) (hone : scrubbed = [] ∨ undone = [])
    (hscrub : Covered scrubbed here.source.container here.dest.container)
    (hundo : Covered undone here.dest.container here.source.container)
    (hheld : here.source.container.Holds keys ∨ here.dest.container.Holds keys) :
    there.source.container.Holds keys ∨ there.dest.container.Holds keys := by
  rcases hone with rfl | rfl
  · rcases hheld with hheld | hheld
    · exact .inl (h.source.container.holds_nil hheld)
    · rcases h.dest.container.holds hundo hheld with hheld | hheld
      · exact .inr hheld
      · exact .inl (h.source.container.holds_nil hheld)
  · rcases hheld with hheld | hheld
    · rcases h.source.container.holds hscrub hheld with hheld | hheld
      · exact .inl hheld
      · exact .inr (h.dest.container.holds_nil hheld)
    · exact .inr (h.dest.container.holds_nil hheld)

end Holds

/-! ## §2. Calls that look before they delete. -/

section Careful

variable [KeyPairs] {ι : Type}

def World.Holds (world : World ι) (keys : Digest × Digest) : Prop :=
  ∃ k, (world k).container.Holds keys

/-- A call that deletes slots only while the transaction's other end holds their keys. -/
def Action.Careful (world : World ι) : Action ι → Prop
  | .finalizeSource source dest tx =>
    Covered (Pair.scrubs ⟨world source, world dest⟩ tx) (world source).container (world dest).container
  | .finalizeAfterAck source dest tx ackHash =>
    source ≠ dest
      ∧ Covered ((world source).ackScrubs tx ackHash) (world source).container (world dest).container
  | .abort source dest tx =>
    Covered (Pair.undoes ⟨world source, world dest⟩ tx) (world dest).container (world source).container
  | .recover source dest tx =>
    Covered (Pair.recoverScrubs ⟨world source, world dest⟩ tx) (world source).container
        (world dest).container
      ∧ Covered (Pair.recoverUndoes ⟨world source, world dest⟩ tx) (world dest).container
        (world source).container
  | _ => True

instance [DecidableEq ι] (world : World ι) : DecidablePred (Action.Careful world)
  | .finalizeSource .. | .abort .. => inferInstanceAs (Decidable (Covered _ _ _))
  | .finalizeAfterAck .. => inferInstanceAs (Decidable (_ ≠ _ ∧ Covered _ _ _))
  | .recover .. => inferInstanceAs (Decidable (Covered _ _ _ ∧ Covered _ _ _))
  | .enroll .. | .prepare .. | .stage .. | .writeSlots .. | .commitRows .. | .acknowledge ..
  | .accept .. => .isTrue trivial

end Careful

section Runs

variable [Crypto] [KeyPairs] {ι : Type} [DecidableEq ι] {world : World ι} {keys : Digest × Digest}

def World.CarefulRun (world : World ι) (calls : List (Action ι × Option Nat)) : Prop :=
  Runs.Along World.step (fun world call => call.1.Careful world) world calls

instance (world : World ι) : DecidablePred world.CarefulRun := Runs.Along.decide _ _ world

section

omit [Crypto]

variable {left : Option Nat} {m : Run End Error α} {α : Type} {source : ι}

theorem World.on_holds_covered (hne : source ≠ dest)
    (hsheds : Sheds labels (world source).container (m.after left (world source)).container)
    (hcovered : Covered labels (world source).container (world dest).container) (h : world.Holds keys) :
    (world.on source m left).Holds keys := by
  obtain ⟨k, hk⟩ := h
  unfold World.on
  by_cases hsource : k = source
  · subst hsource
    rcases hsheds.holds hcovered hk with hk | hk
    · refine ⟨k, ?_⟩
      rwa [Function.update_self]
    · refine ⟨dest, ?_⟩
      rwa [Function.update_of_ne hne.symm]
  · refine ⟨k, ?_⟩
    rwa [Function.update_of_ne hsource]

theorem World.onBoth_holds {dest : ι} {m : Run Pair Error α}
    (hsettled : Run.MovesFrom (Settled (fun _ => True) scrubbed undone) m ⟨world source, world dest⟩)
    (hone : scrubbed = [] ∨ undone = [])
    (hscrub : Covered scrubbed (world source).container (world dest).container)
    (hundo : Covered undone (world dest).container (world source).container) (h : world.Holds keys) :
    (world.onBoth source dest m left).Holds keys := by
  by_cases hne : source = dest
  · subst hne
    rwa [World.onBoth_self]
  have hboth : (world source).container.Holds keys ∨ (world dest).container.Holds keys →
      (world.onBoth source dest m left).Holds keys := by
    intro hheld
    rcases (hsettled.after left).holds hone hscrub hundo hheld with hheld | hheld
    · refine ⟨source, ?_⟩
      rwa [World.onBoth_source hne]
    · refine ⟨dest, ?_⟩
      rwa [World.onBoth_dest hne]
  obtain ⟨k, hk⟩ := h
  by_cases hsource : k = source
  · exact hboth (.inl (hsource ▸ hk))
  by_cases hdest : k = dest
  · exact hboth (.inr (hdest ▸ hk))
  · refine ⟨k, ?_⟩
    rwa [World.onBoth_other hsource hdest]

end

/-- **A careful call loses no key**, wherever it is cut short. -/
theorem Action.exec_holds {action : Action ι} (hcareful : action.Careful world) (left : Option Nat)
    (h : world.Holds keys) : (action.exec left world).Holds keys := by
  cases action with
  | finalizeSource =>
    exact World.onBoth_holds finalizeSource_settled (.inr rfl) hcareful nofun h
  | finalizeAfterAck source dest tx ackHash =>
    have hcall : Run.MovesFrom (Released (fun _ => True) _) (Transfer.finalizeAfterAck tx ackHash)
        (world source) := finalizeAfterAck_released
    exact World.on_holds_covered hcareful.1 (hcall.after left).container hcareful.2 h
  | abort => exact World.onBoth_holds abortTransfer_settled (.inl rfl) nofun hcareful h
  | recover source dest tx =>
    refine World.onBoth_holds recoverPair_settled ?_ hcareful.1 hcareful.2 h
    -- it goes forward or back, never both
    unfold Pair.recoverScrubs Pair.recoverUndoes
    cases Pair.recoversForward ⟨world source, world dest⟩ tx with
    | true => exact .inr (by simp)
    | false => exact .inl (by simp)
  | _ =>
    obtain ⟨k, hk⟩ := h
    exact ⟨k, (Action.exec_moved (Action.admits_true world _) rfl left k).container.holds hk⟩

/-- **No careful run loses a key**: what some container holds at the start, some container holds after
every call, wherever the calls are cut short. -/
theorem World.run_holds (world : World ι) (calls : List (Action ι × Option Nat))
    (hcareful : world.CarefulRun calls) (keys : Digest × Digest) (h : world.Holds keys) (n : Nat) :
    (world.run (calls.take n)).Holds keys :=
  Runs.Along.always hcareful (fun _ call h hcareful => Action.exec_holds hcareful call.2 h) h n

end Runs

/-! ## §3. A run that loses a key. -/

namespace Sample

attribute [local instance] crypto keyPairs

theorem move_holds_m : (enrolled.run (move.take 3)).Holds slotM.publicKeys :=
  World.run_holds enrolled move (by decide +kernel) slotM.publicKeys
    ⟨false, slotM, by decide +kernel, rfl⟩ 3

/-- A copy of `M` is cut short at device 2, `M` then moves there, and the copy is recovered. -/
def copyThenMove : List (Action Bool × Option Nat) :=
  [(.prepare false (request 1 2 .copy), none),
    (.stage true (device 1 []).key (packageAt (enrolled false) (request 1 2 .copy)) false, none),
    (.writeSlots true (device 1 []).key (packageAt (enrolled false) (request 1 2 .copy)) passphrases
      none, none)]
    ++ move ++ [(.recover false true (.ofNat 16 1), none)]

/-- **Recovering the copy deletes the slot that the move relies on.** -/
theorem recover_loses_m : enrolled.Holds slotM.publicKeys
    ∧ ¬ (enrolled.run copyThenMove).Holds slotM.publicKeys := by
  have hslots : (enrolled false).container.slots = [slotM]
      ∧ ∀ k, (enrolled.run copyThenMove k).container.slots = [] := by
    decide +kernel
  refine ⟨⟨false, slotM, by simp [hslots.1], rfl⟩, ?_⟩
  rintro ⟨k, slot, hslot, -⟩
  rw [hslots.2 k] at hslot
  cases hslot

end Sample

end KeyQuorum.Transfer
