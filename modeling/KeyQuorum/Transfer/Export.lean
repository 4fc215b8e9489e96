/-
  **WHO MAY HAND OVER WHAT** (`transfer.rs`, `authorize` and
  `select_export`).

  An actor may hand over itself and the labels below it, as the dots say.
  What goes along with a label follows the parent column of the identities
  instead, by a loop that ends only if those links have no cycle.
-/
import KeyQuorum.Transfer.Ledger
import KeyQuorum.Foundation.Walk

namespace KeyQuorum.Transfer

open List Foundation

structure TransferAuth where
  selfCopy : Bool := true
  selfMove : Bool := true
  descendantCopy : Bool := true
  descendantMove : Bool := true
  countersignRequired : Bool := false
  allowAncestorImport : Bool := false
  deriving DecidableEq, Repr

def isStrictDescendant (label ancestor : String) : Bool :=
  match label.toList.dropPrefix? ancestor.toList with
  | some rest => rest.head? = some '.' && !(rest.drop 1).isEmpty
  | none => false

/-- The loop of `ancestor_labels`. -/
def ancestorLoop : Nat → String → List String
  | 0, _ => []
  | rounds + 1, current =>
    match parentNodeLabel current with
    | some parent => parent :: ancestorLoop rounds parent
    | none => []

/-- `ancestor_labels`; every parent is shorter, so the length bounds the rounds. -/
def ancestorLabels (label : String) : List String := ancestorLoop label.length label

namespace Ledger

section

variable (ledger : Ledger)

def childrenOf (label : String) : List String :=
  ((ledger.identities.rows.filter fun row => row.parentLabel = some label).map
    IdentityRow.label).insertionSort fun a b => a ≤ b

/-- `descendants_of`, for a number of rounds. -/
def descendantsOf (rounds : Nat) (label : String) : Option (List String) :=
  Walk.loop ledger.childrenOf rounds (ledger.childrenOf label).reverse []

def authorize (actor label : String) (operation : TransferOp)
    (descendants : DescendantMode) (auth : TransferAuth) : Except Error Unit :=
  if auth.countersignRequired then .error .transferDenied
  else
    match ledger.possession actor with
    | some .ghost => .error .ghostDenied
    | none => .error .transferDenied
    | some .active =>
      let selfOk := match operation with
        | .copy => auth.selfCopy
        | .move => auth.selfMove
      let descendantOk := match operation with
        | .copy => auth.descendantCopy
        | .move => auth.descendantMove
      let allowed :=
        if actor = label then selfOk && (descendants = .keyOnly || descendantOk)
        else if isStrictDescendant label actor then descendantOk
        else false
      if allowed then .ok () else .error .transferDenied

/-- The identities below a label that go along with it, before the ghosts are left out. -/
def exportedBelow (rounds : Nat) (label : String) : DescendantMode → Option (List String)
  | .keyOnly => some []
  | .directChildren => some (ledger.childrenOf label)
  | .allDescendants => ledger.descendantsOf rounds label

/-- `select_export`: the labels that go along with their secrets, and those that go along as hints.
`none` is the walk down the tree still running. -/
def selectExport (rounds : Nat) (label : String) (descendants : DescendantMode) :
    Option (Except Error (List String × List String)) :=
  match ledger.possession label with
  | some .ghost => some (.error .ghostDenied)
  | none => some (.error .transferDenied)
  | some .active => do
      let below ← ledger.exportedBelow rounds label descendants
      let secrets := label :: below.filter fun child => ledger.possession child = some .active
      let ancestors := (ancestorLabels label).filter fun ancestor =>
        (ledger.identityByLabel ancestor).isSome && !secrets.contains ancestor
      let subtree ← ledger.descendantsOf rounds label
      let hints := (subtree ++ [label]).foldl (fun hints node =>
        if secrets.contains node || hints.contains node then hints else hints ++ [node]) ancestors
      some (.ok (secrets, hints))

end

section Lemmas

variable {ledger : Ledger} {rounds : Nat} {label : String} {descendants : DescendantMode}
  {secrets hints : List String}
  (h : ledger.selectExport rounds label descendants = some (.ok (secrets, hints)))

include h

theorem selectExport_ok :
    ∃ below, ledger.exportedBelow rounds label descendants = some below
      ∧ secrets = label :: below.filter (fun child => ledger.possession child = some .active)
      ∧ ledger.possession label = some .active := by
  unfold selectExport at h
  split at h
  next => cases h
  next => cases h
  next hactive =>
    obtain ⟨below, hbelow, h⟩ := Option.bind_eq_some_iff.mp h
    obtain ⟨subtree, -, h⟩ := Option.bind_eq_some_iff.mp h
    obtain ⟨rfl, -⟩ := Prod.mk.inj (Except.ok.inj (Option.some.inj h))
    exact ⟨below, hbelow, rfl, hactive⟩

theorem selectExport_active : ∀ secret ∈ secrets, ledger.possession secret = some .active := by
  obtain ⟨below, -, rfl, hactive⟩ := selectExport_ok h
  intro secret hsecret
  rcases mem_cons.mp hsecret with rfl | hsecret
  · exact hactive
  · simpa using (mem_filter.mp hsecret).2

end Lemmas

end Ledger

end KeyQuorum.Transfer
