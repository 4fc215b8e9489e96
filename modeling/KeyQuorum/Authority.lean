/-
  **THE DOTTED-LABEL HIERARCHY** (`authority.rs`, the topology algorithm).

  `M` is above `M.S`, `M.S` above `M.S.2`.  Relations are segment-wise, so
  `M.S` never covers `M.SALES.1`, and a label with an empty segment stands
  nowhere.
-/
import KeyQuorum.Text

namespace KeyQuorum

/-! ## §1. Labels. -/

/-- `parent_node_label`: `M.S.2` → `M.S`, `M` → none. -/
def parentNodeLabel (label : String) : Option String :=
  (rsplitOnce '.' label.toList).map (fun halves => String.ofList halves.1)

/-- `is_well_formed`: non-empty, with no empty segment. -/
def isWellFormed (label : String) : Bool :=
  !label.isEmpty && (label.toList.splitOn '.').all (fun segment => !segment.isEmpty)

def isAncestorOrSelf (authorizer subject : String) : Bool :=
  if !isWellFormed authorizer || !isWellFormed subject then false
  else if authorizer = subject then true
  else
    match subject.toList.dropPrefix? authorizer.toList with
    | some rest => rest.head? = some '.'
    | none => false

def segmentCount (label : String) : Nat :=
  if label.isEmpty then 0 else (label.toList.splitOn '.').length

/-- `ancestry_distance`: steps from `ancestor` down to `descendant`. -/
def ancestryDistance (ancestor descendant : String) : Option Nat :=
  if isWellFormed ancestor && isWellFormed descendant && isAncestorOrSelf ancestor descendant then
    some (segmentCount descendant - segmentCount ancestor)
  else none

/-- `lowest_common_ancestor`: the common segments, up to the first empty one. -/
def lowestCommonAncestor (left right : String) : Option String :=
  if left.isEmpty || right.isEmpty then none
  else
    let common := (((left.toList.splitOn '.').zip (right.toList.splitOn '.')).takeWhile
      (fun pair => pair.1 = pair.2 && !pair.1.isEmpty)).map Prod.fst
    if common.isEmpty then none else some (String.ofList (['.'].intercalate common))

/-- `bridge_connects`: one end holds `actor` or an ancestor of it, the other is on the line of
`scope`. -/
def bridgeConnects (endA endB actor scope : String) : Bool :=
  let covers := fun label => isAncestorOrSelf label actor
  let onScopeLine := fun label => isAncestorOrSelf label scope || isAncestorOrSelf scope label
  endA ≠ endB && (covers endA && onScopeLine endB || covers endB && onScopeLine endA)

/-- `RevisionAuthority`: how an actor relates to a scope root. -/
inductive RevisionAuthority where
  | scopeOwner
  | descendant (ancestor : String) (depth : Nat)
  | ancestor (depth : Nat)
  | crossBranch (commonAncestor : Option String)
  | unrelated
  deriving DecidableEq, Repr

/-- `relationship`: classify `actor` against `scopeRoot`. -/
def relationship (scopeRoot actor : String) : RevisionAuthority :=
  if !isWellFormed scopeRoot || !isWellFormed actor then .unrelated
  else if scopeRoot = actor then .scopeOwner
  else
    match ancestryDistance scopeRoot actor with
    | some depth => .descendant scopeRoot depth
    | none =>
      match ancestryDistance actor scopeRoot with
      | some depth => .ancestor depth
      | none => .crossBranch (lowestCommonAncestor scopeRoot actor)

/-! ## §2. The order. -/

open List

variable {above label other : String}

/-- One label is at or above another if, with a dot after each, it is a prefix of it. -/
theorem isAncestorOrSelf_iff_segments : isAncestorOrSelf above label ↔
    isWellFormed above ∧ isWellFormed label ∧ above.toList ++ ['.'] <+: label.toList ++ ['.'] := by
  unfold isAncestorOrSelf
  by_cases hformed : isWellFormed above ∧ isWellFormed label
  · obtain ⟨ha, hl⟩ := hformed
    simp only [ha, hl, Bool.not_true, Bool.or_self, Bool.false_eq_true, if_false, true_and]
    rw [prefix_concat_iff, append_cancel_right_eq, String.toList_inj]
    by_cases heq : above = label
    · simp [heq]
    · simp only [heq, if_false, false_or]
      constructor
      · intro h
        split at h
        next rest hdrop =>
          obtain ⟨front, hlabel, hfront⟩ := dropPrefix?_eq_some_iff.mp hdrop
          obtain rfl := eq_of_beq hfront
          obtain ⟨more, rfl⟩ := head?_eq_some_iff.mp (of_decide_eq_true h)
          exact ⟨more, by simp [hlabel]⟩
        next => cases h
      · rintro ⟨more, hmore⟩
        have hdrop : label.toList.dropPrefix? above.toList = some ('.' :: more) :=
          dropPrefix?_eq_some_iff.mpr ⟨_, by rw [← hmore, append_assoc]; rfl, beq_self_eq_true _⟩
        simp [hdrop]
  · refine iff_of_false ?_ fun h => hformed ⟨h.1, h.2.1⟩
    simp_all

theorem isAncestorOrSelf_self (h : isWellFormed label) : isAncestorOrSelf label label :=
  isAncestorOrSelf_iff_segments.mpr ⟨h, h, prefix_rfl⟩

theorem isAncestorOrSelf_trans (h : isAncestorOrSelf above label) (h' : isAncestorOrSelf label other) :
    isAncestorOrSelf above other := by
  rw [isAncestorOrSelf_iff_segments] at *
  exact ⟨h.1, h'.2.1, h.2.2.trans h'.2.2⟩

theorem isAncestorOrSelf_antisymm (h : isAncestorOrSelf above label) (h' : isAncestorOrSelf label above) :
    above = label := by
  rw [isAncestorOrSelf_iff_segments] at *
  have heq := h.2.2.eq_of_length_le h'.2.2.length_le
  rwa [append_cancel_right_eq, String.toList_inj] at heq

theorem isAncestorOrSelf_total (h : isAncestorOrSelf above other) (h' : isAncestorOrSelf label other) :
    isAncestorOrSelf above label ∨ isAncestorOrSelf label above := by
  simp only [isAncestorOrSelf_iff_segments] at *
  have hpre := prefix_or_prefix_of_prefix h.2.2 h'.2.2
  exact hpre.imp (⟨h.1, h'.1, ·⟩) (⟨h'.1, h.1, ·⟩)

/-- What is strictly above a label ends before one of its dots. -/
theorem exists_rest (h : isAncestorOrSelf above label) (hne : above ≠ label) :
    ∃ rest, label.toList = above.toList ++ '.' :: rest := by
  obtain ⟨-, -, hpre⟩ := isAncestorOrSelf_iff_segments.mp h
  rcases prefix_concat_iff.mp hpre with heq | ⟨rest, hrest⟩
  · rw [append_cancel_right_eq, String.toList_inj] at heq
    exact absurd heq hne
  · exact ⟨rest, by simpa using hrest.symm⟩

theorem isAncestorOrSelf_front {front rest : List Char} (h : isWellFormed label)
    (hlabel : label.toList = front ++ '.' :: rest) : isAncestorOrSelf (.ofList front) label := by
  refine isAncestorOrSelf_iff_segments.mpr ⟨?_, h, rest ++ ['.'], by simp [hlabel]⟩
  unfold isWellFormed at *
  rw [hlabel, splitOn_append_cons_self, all_append] at h
  cases front with
  | nil => simp at h
  | cons c front => simp_all

/-- Two labels have a common ancestor if the first segments are the same, and the labels above one
begin with its first segment. -/
theorem lowestCommonAncestor_isSome (scope : String) (h : isAncestorOrSelf above label)
    (hcommon : (lowestCommonAncestor scope label).isSome) : (lowestCommonAncestor scope above).isSome := by
  by_cases heq : above = label
  · exact heq ▸ hcommon
  obtain ⟨rest, hrest⟩ := exists_rest h heq
  obtain ⟨habove, -, -⟩ := isAncestorOrSelf_iff_segments.mp h
  unfold lowestCommonAncestor at *
  rw [hrest, splitOn_append_cons_self] at hcommon
  cases hscope : scope.toList.splitOn '.' with
  | nil => exact absurd hscope (splitOn_ne_nil _ _)
  | cons s ss =>
    cases hsplit : above.toList.splitOn '.' with
    | nil => exact absurd hsplit (splitOn_ne_nil _ _)
    | cons a as =>
      simp only [isWellFormed, Bool.and_eq_true, Bool.not_eq_true'] at habove
      by_cases hfirst : s = a ∧ a ≠ [] <;> simp_all

end KeyQuorum
