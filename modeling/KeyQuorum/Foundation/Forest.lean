/-
  **FORESTS GIVEN BY A PARENT MAP.**

  `up` sends a node to its parent, `none` for a root and for what is no node
  at all.  Since a node has one parent, its ancestors form a chain.
-/
import Mathlib.Logic.Relation
import Mathlib.Data.List.Nodup

namespace Foundation.Forest

variable {α : Type} (up : α → Option α)

/-- `p` is the parent of `d`. -/
def Parent (d p : α) : Prop := up d = some p

/-- `a` is `d` or an ancestor of it. -/
def Lineage : α → α → Prop := Relation.ReflTransGen (Parent up)

/-- `d` is strictly below `a`. -/
def Below (a d : α) : Prop := Relation.TransGen (Parent up) d a

def Acyclic : Prop := ∀ x, ¬ Below up x x

variable {up}

/-! ## §1. Chains. -/

theorem Lineage.refl (d : α) : Lineage up d d := Relation.ReflTransGen.refl

variable {d a b p : α}

theorem Lineage.trans (hda : Lineage up d a) (hab : Lineage up a b) :
    Lineage up d b := Relation.ReflTransGen.trans hda hab

theorem Lineage.parent (h : Lineage up d a) (hp : up a = some p) : Lineage up d p :=
  .tail h hp

theorem Below.trans (hab : Below up a b) (hbd : Below up b d) : Below up a d :=
  Relation.TransGen.trans hbd hab

theorem below_of_parent (h : up d = some p) : Below up p d := Relation.TransGen.single h

theorem below_cases (h : Below up a d) : ∃ p, up d = some p ∧ (p = a ∨ Below up a p) := by
  obtain ⟨p, hp, hrest⟩ := Relation.TransGen.head'_iff.mp h
  rcases Relation.reflTransGen_iff_eq_or_transGen.mp hrest with heq | hbelow
  · exact ⟨p, hp, .inl heq.symm⟩
  · exact ⟨p, hp, .inr hbelow⟩

theorem lineage_cases (h : Lineage up d a) : a = d ∨ Below up a d :=
  Relation.reflTransGen_iff_eq_or_transGen.mp h

theorem between_of_parent (hp : up d = some p) (ham : Below up a m) (hmd : Below up m d) :
    m = p ∨ Below up a m ∧ Below up m p := by
  obtain ⟨p', hp', hcases⟩ := below_cases hmd
  rw [hp] at hp'
  obtain rfl := Option.some.inj hp'
  rcases hcases with rfl | hbelow
  · exact .inl rfl
  · exact .inr ⟨ham, hbelow⟩

/-! ## §2. Roots and cycles. -/

/-- **A node with a root above it is on no cycle.** -/
theorem acyclic_of_root (hroot : up r = none) (h : Lineage up x r) : ¬ Below up x x := by
  induction h using Relation.ReflTransGen.head_induction_on with
  | refl =>
    intro hcycle
    obtain ⟨p, hp, -⟩ := below_cases hcycle
    rw [hroot] at hp
    cases hp
  | @head d p hstep _ ih =>
    -- a cycle through `d` passes through its parent
    intro hcycle
    obtain ⟨q, hq, hrest⟩ := Relation.TransGen.head'_iff.mp hcycle
    obtain rfl : p = q := Option.mem_unique hstep hq
    exact ih (Relation.TransGen.tail' hrest hstep)

end Foundation.Forest
