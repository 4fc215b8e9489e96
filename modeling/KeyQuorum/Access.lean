/-
  **WHAT A SWITCH OF ACCOUNTS DEMANDS** (`access.rs`): the factor asked of
  `current` to become `target`, and the opt-in grant of a parent on top.

  Root has no parent, so neither a switch to it nor `sudo` asks for a grant.
-/
import KeyQuorum.Authority

namespace KeyQuorum.Access

/-- What a node has to present. -/
inductive Factor where
  | none
  | password
  | kqstAndPassword
  | passwordAndBridgeKqst
  | refused
  deriving DecidableEq, Repr

/-- `BridgeFact`: a live private bridge, by its Member labels. -/
structure BridgeFact where
  members : List String

structure AccessPolicy where
  parentApproval : Bool

structure Requirement where
  factor : Factor
  bridgeIndex : Option Nat
  needsParentGrant : Bool
  deriving DecidableEq, Repr

def plain (factor : Factor) : Requirement := ⟨factor, none, false⟩

def granted (policy : AccessPolicy) (factor : Factor) (bridgeIndex : Option Nat) : Requirement :=
  ⟨factor, bridgeIndex, policy.parentApproval && factor ≠ .none⟩

def firstConnectingBridge (bridges : List BridgeFact) (current target : String) : Option Nat :=
  bridges.findIdx? fun bridge => bridge.members.zipIdx.any fun (x, i) =>
    (bridge.members.drop (i + 1)).any fun y => bridgeConnects x y current target

def requirement (current target : String) (sudo_ : Bool) (bridges : List BridgeFact)
    (policy : AccessPolicy) : Requirement :=
  if current.isEmpty || target.isEmpty then plain .refused
  else if !sudo_ && current = target && relationship current target = .scopeOwner then plain .none
  else if sudo_ || target = "Root" then
    match relationship current target with
    | .unrelated => plain .refused
    | _ => plain .kqstAndPassword
  else
    match relationship current target with
    | .scopeOwner => plain .none
    | .descendant _ _ => granted policy .password none
    | .ancestor _ => granted policy .password none
    | .crossBranch _ =>
      match firstConnectingBridge bridges current target with
      | some i => granted policy .passwordAndBridgeKqst (some i)
      | none => granted policy .kqstAndPassword none
    | .unrelated => plain .refused

/-- **When a parent has to grant a switch**: the policy says so, the switch is neither `sudo` nor
to Root, and it is allowed and asks for a factor. -/
theorem requirement_grant_iff (current target : String) (sudo_ : Bool) (bridges : List BridgeFact)
    (policy : AccessPolicy) :
    (requirement current target sudo_ bridges policy).needsParentGrant = true
      ↔ policy.parentApproval = true ∧ sudo_ = false ∧ target ≠ "Root"
        ∧ (requirement current target sudo_ bridges policy).factor ≠ .none
        ∧ (requirement current target sudo_ bridges policy).factor ≠ .refused := by
  unfold requirement
  split
  next => simp [plain]
  next =>
    split
    next => simp [plain]
    next =>
      split
      next hroot =>
        have hroot : sudo_ = true ∨ target = "Root" := by simpa using hroot
        rcases hroot with rfl | rfl <;> split <;> simp [plain]
      next hroot =>
        have hbranch : sudo_ = false ∧ target ≠ "Root" := by simpa using hroot
        simp only [hbranch.1, ne_eq, hbranch.2, not_false_eq_true, true_and]
        split
        next => simp [plain]
        next => simp [granted]
        next => simp [granted]
        next => split <;> simp [granted]
        next => simp [plain]

/-- `sudo` asks for a token and a password, and for no grant. -/
theorem sudo_needs_no_grant :
    requirement "Root.Flinstone.Bob" "Root" true [] ⟨true⟩ = plain .kqstAndPassword
      ∧ (plain .kqstAndPassword).factor ∉ [Factor.none, .refused]
      ∧ (plain .kqstAndPassword).needsParentGrant = false := by
  decide +kernel

end KeyQuorum.Access
