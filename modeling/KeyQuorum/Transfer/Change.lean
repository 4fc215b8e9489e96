/-
  **WHAT A STEP CAN DO TO A LEDGER.**

  Every step of a transfer changes a ledger by a few kinds of statement,
  each with what is known when it runs.  What holds of all of them holds of
  every run.
-/
import KeyQuorum.Transfer.Ledger

namespace KeyQuorum.Transfer

open Foundation Ledger

/-! ## §1. Changes of a ledger. -/

def TxState.isOpen : TxState → Bool
  | .transferred | .writing => true
  | _ => false

inductive TxChange : Ledger → Ledger → Prop where
  | tx {ledger : Ledger} {row : TxRow} (hnew : ledger.tx row.id = none) :
      TxChange ledger (ledger.withTx row)
  | restage {ledger : Ledger} {id : Id16} {row : TxRow} (hold : ledger.txRole id = some .source)
      (hnew : row.role = .destination) : TxChange ledger (ledger.withRestaged id row)
  | state {ledger : Ledger} {id : Id16} {state : TxState}
      (hopen : state.isOpen = true → ∃ row, ledger.tx id = some row ∧ row.state.isOpen = true) :
      TxChange ledger (ledger.withState id state)
  | installed {ledger : Ledger} {id : Id16} {row : TxRow} {labels : List String}
      (hrow : ledger.tx id = some row) (hlabels : ∀ label ∈ labels, ';' ∉ label.toList) :
      TxChange ledger (ledger.withDetail id (replaceDetailList row.detail "installed" labels))

/-- One change of a ledger; `P` is what is known of an identity that is new. -/
inductive Change (P : IdentityRow → Prop) : Ledger → Ledger → Prop where
  | keys (ledger : Ledger) (keys : List HardwareKey) :
      Change P ledger { ledger with hardwareKeys := keys }
  | identity {ledger : Ledger} {row : IdentityRow} (state : PossessionState) (generation : Generation)
      (hrow : P row) (hid : ledger.identityById row.id = none)
      (hlabel : ledger.identityByLabel row.label = none)
      (hheld : ledger.possessions.find? row.id = none) :
      Change P ledger (ledger.withIdentity row ⟨row.id, state, generation⟩)
  | possession {ledger : Ledger} {id : Id16} {old : Generation} (state : PossessionState)
      {generation : Generation} (hold : ledger.generation? id = some old)
      (hle : old.val ≤ generation.val) : Change P ledger (ledger.withPossession id state generation)
  | atLeast (ledger : Ledger) (id : Id16) (generation : Generation) :
      Change P ledger (ledger.withGenerationAtLeast id generation)
  | transactions {ledger ledger' : Ledger} (h : TxChange ledger ledger') : Change P ledger ledger'

abbrev Later (P : IdentityRow → Prop) : Ledger → Ledger → Prop := Relation.ReflTransGen (Change P)

abbrev TxLater : Ledger → Ledger → Prop := Relation.ReflTransGen TxChange

structure SameHeld (ledger ledger' : Ledger) : Prop where
  identities_eq : ledger'.identities = ledger.identities
  possessions_eq : ledger'.possessions = ledger.possessions

variable {a b : Ledger} {P : IdentityRow → Prop}

theorem TxChange.sameHeld (h : TxChange a b) : SameHeld a b := by
  cases h <;> exact ⟨rfl, rfl⟩

theorem TxLater.sameHeld (h : TxLater a b) : SameHeld a b := by
  induction h with
  | refl => exact ⟨rfl, rfl⟩
  | tail _ hstep ih =>
    exact ⟨hstep.sameHeld.identities_eq.trans ih.identities_eq,
      hstep.sameHeld.possessions_eq.trans ih.possessions_eq⟩

theorem TxLater.later (h : TxLater a b) : Later P a b :=
  .mono (fun _ _ => Change.transactions) _ _ h

/-! ## §2. Identities stay, generations never fall. -/

structure Grown (ledger ledger' : Ledger) : Prop where
  byId : ∀ {id row}, ledger.identityById id = some row → ledger'.identityById id = some row
  byLabel : ∀ {label row}, ledger.identityByLabel label = some row →
    ledger'.identityByLabel label = some row
  generation : ∀ {id g}, ledger.generation? id = some g →
    ∃ g', ledger'.generation? id = some g' ∧ g.val ≤ g'.val

theorem Grown.refl (ledger : Ledger) : Grown ledger ledger :=
  ⟨fun h => h, fun h => h, fun h => ⟨_, h, Nat.le_refl _⟩⟩

theorem Grown.trans (hab : Grown a b) (hbc : Grown b c) : Grown a c where
  byId h := hbc.byId (hab.byId h)
  byLabel h := hbc.byLabel (hab.byLabel h)
  generation h := by
    obtain ⟨g, hg, hle⟩ := hab.generation h
    obtain ⟨g', hg', hle'⟩ := hbc.generation hg
    exact ⟨g', hg', Nat.le_trans hle hle'⟩

theorem SameHeld.grown (h : SameHeld a b) : Grown a b where
  byId hrow := by
    unfold identityById at *
    rwa [h.identities_eq]
  byLabel hrow := by
    unfold identityByLabel at *
    rwa [h.identities_eq]
  generation hg := by
    unfold generation? at *
    exact ⟨_, by rwa [h.possessions_eq], Nat.le_refl _⟩

namespace Ledger

variable {ledger : Ledger} {row : IdentityRow} {held : PossessionRow}

section

variable {id : Id16} (hnew : ledger.identityById row.id = none)

include hnew

theorem identityById_withIdentity :
    (ledger.withIdentity row held).identityById id
      = if id = row.id then some row else ledger.identityById id :=
  Table.find?_add hnew

theorem rows_withIdentity :
    (ledger.withIdentity row held).identities.rows = ledger.identities.rows ++ [row] :=
  Table.rows_add hnew

theorem identityByLabel_withIdentity :
    (ledger.withIdentity row held).identityByLabel label
      = (ledger.identityByLabel label).or (if row.label = label then some row else none) := by
  unfold identityByLabel
  rw [rows_withIdentity hnew, List.find?_append]
  congr 1
  by_cases h : row.label = label
  · simp [h]
  · simp [h]

end

theorem find?_withIdentity (hnew : ledger.possessions.find? held.identityId = none) {id : Id16} :
    (ledger.withIdentity row held).possessions.find? id
      = if id = held.identityId then some held else ledger.possessions.find? id :=
  Table.find?_add hnew

end Ledger

theorem Change.grown (h : Change P a b) : Grown a b := by
  cases h with
  | keys => exact SameHeld.grown ⟨rfl, rfl⟩
  | identity state generation hrow hid hlabel hheld =>
    refine ⟨fun {id row} h => ?_, fun {label row} h => ?_, fun {id g} h => ?_⟩
    · rw [identityById_withIdentity hid, if_neg (fun heq => ?_)]
      · exact h
      · rw [heq, hid] at h
        cases h
    · rw [identityByLabel_withIdentity hid, h]
      rfl
    · refine ⟨g, ?_, Nat.le_refl _⟩
      unfold generation? at h ⊢
      rw [find?_withIdentity hheld, if_neg (fun heq => ?_)]
      · exact h
      · rw [show id = _ from heq, hheld] at h
        cases h
  | @possession id old state generation hold hle =>
    refine ⟨fun h => h, fun h => h, fun {other g} h => ?_⟩
    rw [generation?_withPossession]
    by_cases heq : other = id
    · rw [if_pos heq]
      subst heq
      rw [hold] at h
      cases h
      exact ⟨generation, by rw [hold]; rfl, hle⟩
    · rw [if_neg heq]
      exact ⟨g, h, Nat.le_refl _⟩
  | atLeast id generation =>
    refine ⟨fun h => h, fun h => h, fun {other g} h => ?_⟩
    rw [generation?_withGenerationAtLeast]
    by_cases heq : other = id
    · rw [if_pos heq, h]
      refine ⟨_, rfl, ?_⟩
      show g.val ≤ (if g.val < generation.val then generation else g).val
      split
      next hlt => exact Nat.le_of_lt hlt
      next => exact Nat.le_refl _
    · rw [if_neg heq]
      exact ⟨g, h, Nat.le_refl _⟩
  | transactions h => exact h.sameHeld.grown

theorem Later.grown (h : Later P a b) : Grown a b := by
  induction h with
  | refl => exact .refl a
  | tail _ hstep ih => exact ih.trans hstep.grown

/-! ## §3. What becomes of a transaction. -/

structure TxRow.Follows (row row' : TxRow) : Prop where
  operation_eq : row'.operation = row.operation
  /-- Only a row of role `source` is ever carried over to the destination's bookkeeping. -/
  same_role : row'.role = row.role ∨ (row.role = .source ∧ row'.role = .destination)
  same_package : row'.role = row.role → row'.packageHash = row.packageHash ∧ row'.included = row.included
  /-- A destination that stopped taking things in never takes them in again. -/
  closed : row.role = .destination → row.state.isOpen = false → row'.state.isOpen = false

theorem TxRow.Follows.refl (row : TxRow) : row.Follows row :=
  ⟨rfl, .inl rfl, fun _ => ⟨rfl, rfl⟩, fun _ h => h⟩

theorem TxRow.Follows.trans {a b c : TxRow} (hab : a.Follows b) (hbc : b.Follows c) : a.Follows c := by
  refine ⟨hbc.operation_eq.trans hab.operation_eq, ?_, fun hrole => ?_, fun hdest hclosed => ?_⟩
  · rcases hab.same_role with hab' | ⟨ha, hb⟩
    · rcases hbc.same_role with hbc' | ⟨hb, hc⟩
      · exact .inl (hbc'.trans hab')
      · exact .inr ⟨hab' ▸ hb, hc⟩
    · rcases hbc.same_role with hbc' | ⟨hb', -⟩
      · exact .inr ⟨ha, hbc'.trans hb⟩
      · exact absurd (hb.symm.trans hb') (by simp)
  · have hb : b.role = a.role := by
      rcases hab.same_role with hab' | ⟨ha, hb⟩
      · exact hab'
      · rcases hbc.same_role with hbc' | ⟨hb', -⟩
        · exact absurd (ha.symm.trans (hrole.symm.trans (hbc'.trans hb))) (by simp)
        · exact absurd (hb.symm.trans hb') (by simp)
    obtain ⟨hhash, hincluded⟩ := hab.same_package hb
    obtain ⟨hhash', hincluded'⟩ := hbc.same_package (hrole.trans hb.symm)
    exact ⟨hhash'.trans hhash, hincluded'.trans hincluded⟩
  · have hb : b.role = .destination := by
      rcases hab.same_role with hab' | ⟨ha, -⟩
      · exact hab'.trans hdest
      · exact absurd (ha.symm.trans hdest) (by simp)
    exact hbc.closed hb (hab.closed hdest hclosed)

variable {id : Id16}

theorem TxChange.follows (h : TxChange a b)
    (hrow : a.tx id = some row) : ∃ row', b.tx id = some row' ∧ row.Follows row' := by
  cases h with
  | @tx new hnew =>
    refine ⟨row, ?_, TxRow.Follows.refl row⟩
    rw [tx_withTx hnew, if_neg (fun heq => ?_)]
    · exact hrow
    · rw [heq, hnew] at hrow
      cases hrow
  | @restage other new hold hnew =>
    rw [tx_withRestaged]
    by_cases heq : id = other
    · subst heq
      have hsource : row.role = .source := by
        unfold txRole at hold
        rw [hrow] at hold
        exact Option.some.inj hold
      refine ⟨{ new with id := row.id, operation := row.operation }, by rw [if_pos rfl, hrow]; rfl, ?_⟩
      refine ⟨rfl, .inr ⟨hsource, hnew⟩, fun hrole => ?_, fun hdest => ?_⟩
      · exact absurd (hnew.symm.trans (hrole.trans hsource)) (by simp)
      · exact absurd (hsource.symm.trans hdest) (by simp)
    · exact ⟨row, by rw [if_neg heq, hrow], TxRow.Follows.refl row⟩
  | @state other new hopen =>
    rw [tx_withState]
    by_cases heq : id = other
    · subst heq
      refine ⟨{ row with state := new }, by rw [if_pos rfl, hrow]; rfl, ?_⟩
      refine ⟨rfl, .inl rfl, fun _ => ⟨rfl, rfl⟩, fun _ hclosed => ?_⟩
      cases hnew : new.isOpen with
      | false => rfl
      | true =>
        obtain ⟨found, hfound, hfoundOpen⟩ := hopen hnew
        rw [hrow] at hfound
        cases hfound
        exact absurd (hclosed.symm.trans hfoundOpen) (by simp)
    · exact ⟨row, by rw [if_neg heq, hrow], TxRow.Follows.refl row⟩
  | @installed other noted labels hnoted hlabels =>
    rw [tx_withDetail]
    by_cases heq : id = other
    · subst heq
      rw [hrow] at hnoted
      cases hnoted
      refine ⟨_, by rw [if_pos rfl, hrow]; rfl, ?_⟩
      refine ⟨rfl, .inl rfl, fun _ => ⟨rfl, ?_⟩, fun _ h => h⟩
      exact detailList_replaceDetailList_other (by decide) (by decide) (by decide) hlabels _
    · exact ⟨row, by rw [if_neg heq, hrow], TxRow.Follows.refl row⟩

theorem Change.follows (h : Change P a b)
    (hrow : a.tx id = some row) : ∃ row', b.tx id = some row' ∧ row.Follows row' := by
  cases h with
  | keys => exact ⟨row, hrow, TxRow.Follows.refl row⟩
  | identity => exact ⟨row, hrow, TxRow.Follows.refl row⟩
  | possession => exact ⟨row, hrow, TxRow.Follows.refl row⟩
  | atLeast => exact ⟨row, hrow, TxRow.Follows.refl row⟩
  | transactions h => exact h.follows hrow

theorem Later.follows (h : Later P a b)
    (hrow : a.tx id = some row) : ∃ row', b.tx id = some row' ∧ row.Follows row' := by
  induction h with
  | refl => exact ⟨row, hrow, TxRow.Follows.refl row⟩
  | tail _ hstep ih =>
    obtain ⟨mid, hmid, hfollows⟩ := ih
    obtain ⟨row', hrow', hfollows'⟩ := hstep.follows hmid
    exact ⟨row', hrow', hfollows.trans hfollows'⟩

end KeyQuorum.Transfer
