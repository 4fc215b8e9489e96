/-
  **THE PER-FILE POLICY** (`file_history/policy.rs`, the rules themselves).

  Each role relative to the file's scope has a requirement.  The policy is
  stored in the container and hashed into every revision made under it.
-/
import KeyQuorum.FileHistory.Codec
import KeyQuorum.Authority

namespace KeyQuorum

open Foundation

def policyDomain : Bytes := utf8Bytes "KQ-FILE-POLICY-v1"

inductive Requirement where
  | forbidden
  | authorSign
  | authorSignDirectParent
  | authorSignBridgeOrOwner
  | authorSignBridgeAndOwner
  deriving DecidableEq, Repr

/-- `requirement as u8`. -/
def Requirement.code : Requirement → UInt8
  | .forbidden => 0
  | .authorSign => 1
  | .authorSignDirectParent => 2
  | .authorSignBridgeOrOwner => 3
  | .authorSignBridgeAndOwner => 4

def Requirement.fromU8 : UInt8 → Except Error Requirement
  | 0 => .ok .forbidden
  | 1 => .ok .authorSign
  | 2 => .ok .authorSignDirectParent
  | 3 => .ok .authorSignBridgeOrOwner
  | 4 => .ok .authorSignBridgeAndOwner
  | _ => .error .invalidTrackedFile

theorem Requirement.fromU8_code (r : Requirement) : fromU8 r.code = .ok r := by
  cases r <;> rfl

theorem Requirement.fromU8_ok (h : fromU8 v = .ok r) : v = r.code := by
  unfold fromU8 at h
  split at h <;> cases h <;> rfl

/-- `FilePolicy`: the rule of each role, anchored at `scopeRoot`. -/
structure FilePolicy where
  scopeRoot : String
  scopeOwner : Requirement
  descendants : Requirement
  ancestors : Requirement
  crossBranch : Requirement
  autoMerge : Bool
  deriving DecidableEq, Repr

/-- `u8::from(flag)`. -/
def boolCode (flag : Bool) : UInt8 := if flag then 1 else 0

/-- A flag byte: anything but `0` and `1` is malformed. -/
def boolFromU8 (v : UInt8) : Except Error Bool :=
  if v = 0 then .ok false
  else if v = 1 then .ok true
  else .error .invalidTrackedFile

theorem boolFromU8_code (flag : Bool) : boolFromU8 (boolCode flag) = .ok flag := by
  cases flag <;> rfl

theorem boolFromU8_ok (h : boolFromU8 v = .ok flag) : v = boolCode flag := by
  grind [boolFromU8, boolCode]

theorem eq_five (codes : FixedBytes 5) : ∃ a b c d e, codes.bytes = [a, b, c, d, e] := by
  obtain ⟨bytes, hlen⟩ := codes
  match bytes, hlen with
  | [a, b, c, d, e], _ => exact ⟨a, b, c, d, e, rfl⟩

namespace FilePolicy

/-- `FilePolicy::standard`: owner and ancestors self-sign, descendants need their direct parent,
cross-branch needs a bridge or the owner. -/
def standard (scopeRoot : String) : FilePolicy where
  scopeRoot := scopeRoot
  scopeOwner := .authorSign
  descendants := .authorSignDirectParent
  ancestors := .authorSign
  crossBranch := .authorSignBridgeOrOwner
  autoMerge := true

/-- `FilePolicy::with_rules`: the standard policy with the given rules.  Refused are a forbidden owner, a bridge
for anyone but cross-branch authors, and a parent's countersignature where there may be no parent. -/
def withRules (scopeRoot : String) (owner descendants ancestors crossBranch : Option Requirement)
    (autoMerge : Bool) : Except Error FilePolicy :=
  let base := standard scopeRoot
  let policy := { base with
    autoMerge
    scopeOwner := owner.getD base.scopeOwner
    descendants := descendants.getD base.descendants
    ancestors := ancestors.getD base.ancestors
    crossBranch := crossBranch.getD base.crossBranch }
  let needsParent := fun rule => rule = Requirement.authorSignDirectParent
  let bridgeRule := fun rule =>
    rule = Requirement.authorSignBridgeOrOwner ∨ rule = .authorSignBridgeAndOwner
  let hasParent := (parentNodeLabel scopeRoot).isSome
  if policy.scopeOwner = .forbidden ∨ needsParent policy.ancestors ∧ hasParent
      ∨ bridgeRule policy.scopeOwner ∨ bridgeRule policy.descendants ∨ bridgeRule policy.ancestors
      ∨ needsParent policy.scopeOwner ∧ ¬ hasParent ∨ needsParent policy.crossBranch then
    .error .invalidTrackedFile
  else .ok policy

/-- `FilePolicy::bytes`, which the container stores and `policy_hash` covers. -/
def bytes (p : FilePolicy) : Except Error Bytes := do
  let scopeRoot ← pushLenPrefixed (utf8Bytes p.scopeRoot)
  .ok [scopeRoot, [p.scopeOwner.code, p.descendants.code, p.ancestors.code, p.crossBranch.code,
    boolCode p.autoMerge]].flatten

def encode (p : FilePolicy) : Except Error Bytes := p.bytes

def decode : Reader Error FilePolicy := do
  let scopeRoot ← takeStr
  let codes ← takeFixed 5
  match codes.bytes with
  | [owner, descendants, ancestors, crossBranch, autoMerge] => do
      let scopeOwner ← Reader.lift (Requirement.fromU8 owner)
      let descendants ← Reader.lift (Requirement.fromU8 descendants)
      let ancestors ← Reader.lift (Requirement.fromU8 ancestors)
      let crossBranch ← Reader.lift (Requirement.fromU8 crossBranch)
      let autoMerge ← Reader.lift (boolFromU8 autoMerge)
      pure { scopeRoot, scopeOwner, descendants, ancestors, crossBranch, autoMerge }
  | _ => Reader.fail .invalidTrackedFile

theorem decode_inverts : Inverts encode decode := by
  refine Spells.inverts (w := ?w) ?fields ?layout
  case fields =>
    refine takeStr_inverts.field scopeRoot fun scopeRoot => (takeFixed_inverts 5).field
      (fun p : FilePolicy => ⟨[p.scopeOwner.code, p.descendants.code, p.ancestors.code, p.crossBranch.code,
        boolCode p.autoMerge], rfl⟩) (w := fun _ => .ok []) fun codes => ⟨?_, ?_⟩
    · rintro p _ ⟨rfl, rfl, -⟩ ⟨⟩ rest
      simp only [Requirement.fromU8_code, boolFromU8_code]
      rfl
    · intro data p rest h
      obtain ⟨owner, descendants, ancestors, crossBranch, autoMerge, hcodes⟩ := eq_five codes
      rw [hcodes] at h
      obtain ⟨r₁, h₁, h⟩ := Reader.lift_bind_ok h
      obtain ⟨r₂, h₂, h⟩ := Reader.lift_bind_ok h
      obtain ⟨r₃, h₃, h⟩ := Reader.lift_bind_ok h
      obtain ⟨r₄, h₄, h⟩ := Reader.lift_bind_ok h
      obtain ⟨flag, h₅, h⟩ := Reader.lift_bind_ok h
      obtain ⟨rfl, rfl⟩ := Reader.pure_ok h
      refine ⟨⟨FixedBytes.ext_bytes ?_, rfl, trivial⟩, [], rfl, rfl⟩
      rw [hcodes, Requirement.fromU8_ok h₁, Requirement.fromU8_ok h₂, Requirement.fromU8_ok h₃,
        Requirement.fromU8_ok h₄, boolFromU8_ok h₅]
  case layout =>
    intro p
    simp [encode, bytes, andThen, pushStr]

def policyHash [Crypto] (p : FilePolicy) : Except Error Digest := do
  let bytes ← p.bytes
  .ok (sha256 (policyDomain ++ bytes))

/-- `FilePolicy::requirement_for`: the rule for an author, none outside the scope's hierarchy. -/
def requirementFor (p : FilePolicy) (authorLabel : String) : Option Requirement :=
  match relationship p.scopeRoot authorLabel with
  | .scopeOwner => some p.scopeOwner
  | .descendant _ _ => some p.descendants
  | .ancestor _ => some p.ancestors
  | .crossBranch (some _) => some p.crossBranch
  | .crossBranch none => none
  | .unrelated => none

/-- `may_author`. -/
def mayAuthor (p : FilePolicy) (label : String) : Bool :=
  match p.requirementFor label with
  | some requirement => requirement ≠ .forbidden
  | none => false

/-! ## §3. Who may author above an author. -/

variable {p : FilePolicy} {label reviewer : String}

theorem mayAuthor_iff : p.mayAuthor label ↔ isWellFormed p.scopeRoot ∧ isWellFormed label
      ∧ (if p.scopeRoot = label then p.scopeOwner
        else if isAncestorOrSelf p.scopeRoot label then p.descendants
        else if isAncestorOrSelf label p.scopeRoot then p.ancestors
        else if (lowestCommonAncestor p.scopeRoot label).isSome then p.crossBranch
        else .forbidden) ≠ .forbidden := by
  unfold mayAuthor requirementFor relationship ancestryDistance
  cases lowestCommonAncestor p.scopeRoot label <;> grind

/-- The rules that let everyone above an author be an author. -/
def OpenAbove (p : FilePolicy) : Prop :=
  p.scopeOwner ≠ .forbidden ∧ (p.ancestors ≠ .forbidden ∨ '.' ∉ p.scopeRoot.toList)

theorem OpenAbove.mayAuthor_root (hopen : p.OpenAbove) (h : isAncestorOrSelf label p.scopeRoot) :
    p.mayAuthor label := by
  obtain ⟨hlabel, hroot, -⟩ := isAncestorOrSelf_iff_segments.mp h
  refine mayAuthor_iff.mpr ⟨hroot, hlabel, ?_⟩
  split
  next => exact hopen.1
  next hne =>
    rw [if_neg fun hbelow => hne (isAncestorOrSelf_antisymm hbelow h)]
    refine hopen.2.resolve_right fun hdot => hdot ?_
    obtain ⟨rest, hrest⟩ := exists_rest h (Ne.symm hne)
    simp [hrest]

theorem OpenAbove.mayAuthor (hopen : p.OpenAbove) (h : isAncestorOrSelf label reviewer)
    (hmay : p.mayAuthor reviewer) : p.mayAuthor label := by
  by_cases habove : isAncestorOrSelf label p.scopeRoot
  · exact hopen.mayAuthor_root habove
  -- neither the label nor the reviewer is above the root: both are below it, or both in another branch
  obtain ⟨hroot, -, hrule⟩ := mayAuthor_iff.mp hmay
  obtain ⟨hlabel, -, -⟩ := isAncestorOrSelf_iff_segments.mp h
  have hbelow : isAncestorOrSelf p.scopeRoot label ↔ isAncestorOrSelf p.scopeRoot reviewer :=
    ⟨fun hl => isAncestorOrSelf_trans hl h, fun hr => (isAncestorOrSelf_total hr h).resolve_right habove⟩
  have hnot : ¬ isAncestorOrSelf reviewer p.scopeRoot := fun hr => habove (isAncestorOrSelf_trans h hr)
  have hself := isAncestorOrSelf_self hroot
  have hcommon := lowestCommonAncestor_isSome p.scopeRoot h
  refine mayAuthor_iff.mpr ⟨hroot, hlabel, ?_⟩
  grind

theorem openAbove_of_root (hroot : isWellFormed p.scopeRoot)
    (h : ∀ label, isAncestorOrSelf label p.scopeRoot → p.mayAuthor label) : p.OpenAbove := by
  have hself := isAncestorOrSelf_self hroot
  refine ⟨by simpa using (mayAuthor_iff.mp (h _ hself)).2.2, or_iff_not_imp_right.mpr fun hdot => ?_⟩
  obtain ⟨front, rest, hrest⟩ := List.append_of_mem (not_not.mp hdot)
  have habove := isAncestorOrSelf_front hroot hrest
  obtain ⟨-, -, hrule⟩ := mayAuthor_iff.mp (h _ habove)
  have hne : p.scopeRoot ≠ .ofList front := by
    intro heq
    rw [heq, String.toList_ofList] at hrest
    simp at hrest
  rwa [if_neg hne, if_neg fun hbelow => hne (isAncestorOrSelf_antisymm hbelow habove), if_pos habove]
    at hrule

end FilePolicy

end KeyQuorum
