/-
  **LOOPS THAT GROW A VISITED SET.**

  Four loops over nodes of a finite universe, each with a bound on its
  rounds that is proved to suffice, because every round that goes on takes
  something out of what is still missing.
-/
import KeyQuorum.Foundation.Forest

namespace Foundation.Visited

open List Foundation.Forest

variable {α : Type} [DecidableEq α] {set known : List α} {x y : α}

/-! ## §1. Sets kept as lists. -/

def insertNew (set : List α) (x : α) : List α := if x ∈ set then set else set ++ [x]

theorem mem_insertNew : y ∈ insertNew set x ↔ y ∈ set ∨ y = x := by
  unfold insertNew
  split
  next h =>
    constructor
    · exact .inl
    · rintro (hy | rfl)
      · exact hy
      · exact h
  next => simp

/-- How much of `known` is not in the set. -/
def missing (known set : List α) : Nat := (known.filter (fun x => decide (x ∉ set))).length

theorem missing_le (known set : List α) : missing known set ≤ known.length :=
  length_filter_le _ _

theorem missing_lt (h : set ⊆ more) (hx : x ∈ known) (hnew : x ∉ set) (hin : x ∈ more) :
    missing known more < missing known set := by
  unfold missing
  have hsub : known.filter (fun y => decide (y ∉ more))
      = (known.filter (fun y => decide (y ∉ set))).filter (fun y => decide (y ∉ more)) := by
    rw [filter_filter]
    refine filter_congr fun y _ => ?_
    by_cases hy : y ∈ more
    · simp [hy]
    · have hy' : y ∉ set := fun hmem => hy (h hmem)
      simp [hy, hy']
  rw [hsub]
  refine length_filter_lt_length_iff_exists.mpr ⟨x, ?_, by simpa using hin⟩
  exact mem_filter.mpr ⟨hx, by simpa using hnew⟩

theorem missing_snoc (hx : x ∈ known) (hnew : x ∉ set) :
    missing known (set ++ [x]) < missing known set :=
  missing_lt (subset_append_left _ _) hx hnew mem_concat_self

/-! ## §2. Climbing. -/

section Climb

variable (up : α → Option α)

/-- Follow the parents, adding to `visible`, until a node comes up a second time; the flag says
whether anything was added. -/
def climbLoop : Nat → Option α → List α → List α → Bool → List α × Bool
  | 0, _, _, visible, grew => (visible, grew)
  | _ + 1, none, _, visible, grew => (visible, grew)
  | fuel + 1, some x, seen, visible, grew =>
    if x ∈ seen then (visible, grew)
    else climbLoop fuel (up x) (seen ++ [x]) (insertNew visible x) (grew || decide (x ∉ visible))

/-- Climb from `start`; `known` bounds the rounds. -/
def climb (known : List α) (start : α) (visible : List α) : List α × Bool :=
  climbLoop up (known.length + 2) (some start) [] visible false

/-- Follow the parents until `root` comes up, or a node a second time. -/
def reachesLoop (root : α) : Nat → Option α → List α → Bool
  | 0, _, _ => false
  | _ + 1, none, _ => false
  | fuel + 1, some x, seen =>
    if x ∈ seen then false
    else if x = root then true
    else reachesLoop root fuel (up x) (seen ++ [x])

/-- Whether the parents lead from `start` to `root`. -/
def reaches (known : List α) (root start : α) : Bool :=
  reachesLoop up root (known.length + 2) (some start) []

structure Climbing (start : α) (cur : Option α) (seen : List α) : Prop where
  seen_lineage : ∀ x ∈ seen, Lineage up start x
  cur_lineage : ∀ x, cur = some x → Lineage up start x
  begun : start ∈ seen ∨ cur = some start
  closed : ∀ x ∈ seen, ∀ p, up x = some p → p ∈ seen ∨ cur = some p

variable {up}

section

omit [DecidableEq α]

theorem climbing_init (start : α) : Climbing up start (some start) [] where
  seen_lineage := nofun
  cur_lineage := by
    intro x hx
    cases hx
    exact Lineage.refl _
  begun := .inr rfl
  closed := nofun

variable {seen : List α}

theorem Climbing.next (h : Climbing up start (some x) seen) :
    Climbing up start (up x) (seen ++ [x]) where
  seen_lineage := by
    intro y hy
    rcases mem_append.mp hy with hy | hy
    · exact h.seen_lineage y hy
    · rw [mem_singleton.mp hy]
      exact h.cur_lineage x rfl
  cur_lineage := fun p hp => (h.cur_lineage x rfl).parent hp
  begun := by
    rcases h.begun with hin | hcur
    · exact .inl (mem_append_left _ hin)
    · cases hcur
      exact .inl mem_concat_self
  closed := by
    intro y hy p hp
    rcases mem_append.mp hy with hy | hy
    · rcases h.closed y hy p hp with hin | hcur
      · exact .inl (mem_append_left _ hin)
      · cases hcur
        exact .inl mem_concat_self
    · rw [mem_singleton.mp hy] at hp
      exact .inr hp

theorem Climbing.all (h : Climbing up start cur seen) (hstop : ∀ x, cur = some x → x ∈ seen)
    (hy : Lineage up start y) : y ∈ seen := by
  induction hy with
  | refl => exact h.begun.elim id (hstop start)
  | tail _ hstep ih => exact (h.closed _ ih _ hstep).elim id (hstop _)

end

/-- `known` holds `start` and every parent. -/
def Covers (up : α → Option α) (known : List α) (start : α) : Prop :=
  start ∈ known ∧ ∀ x p, up x = some p → p ∈ known

variable {known visible : List α} {start : α}

omit [DecidableEq α] in
theorem Covers.lineage (h : Covers up known start) (hy : Lineage up start y) : y ∈ known := by
  induction hy with
  | refl => exact h.1
  | tail _ hstep _ => exact h.2 _ _ hstep

theorem climbLoop_spec (hcov : Covers up known start) :
    ∀ (fuel : Nat) (cur : Option α) (seen visible : List α) (grew : Bool),
      Climbing up start cur seen → missing known seen < fuel →
      (∀ y, y ∈ (climbLoop up fuel cur seen visible grew).1
          ↔ y ∈ visible ∨ Lineage up start y ∧ y ∉ seen)
        ∧ ((climbLoop up fuel cur seen visible grew).2
          ↔ grew ∨ ∃ y, Lineage up start y ∧ y ∉ seen ∧ y ∉ visible) := by
  -- Induction on the rounds: a round sees one more known node.
  intro fuel
  induction fuel with
  | zero => intro cur seen visible grew _ hfuel; omega
  | succ fuel ih =>
    intro cur seen visible grew h hfuel
    have hdone (hall : ∀ y, Lineage up start y → y ∈ seen) :
        (∀ y, y ∈ visible ↔ y ∈ visible ∨ Lineage up start y ∧ y ∉ seen)
          ∧ (grew ↔ grew ∨ ∃ y, Lineage up start y ∧ y ∉ seen ∧ y ∉ visible) :=
      ⟨fun y => ⟨.inl, fun hy => hy.elim id fun hl => absurd (hall y hl.1) hl.2⟩,
        .inl, fun hg => hg.elim id fun ⟨y, hl, hns, _⟩ => absurd (hall y hl) hns⟩
    cases cur with
    | none => exact hdone (fun y hy => h.all (by simp) hy)
    | some x =>
      unfold climbLoop
      by_cases hx : x ∈ seen
      · rw [if_pos hx]
        refine hdone fun y hy => h.all (fun z hz => ?_) hy
        rwa [← Option.some.inj hz]
      · rw [if_neg hx]
        have hxl := h.cur_lineage x rfl
        have hless := missing_snoc (hcov.lineage hxl) hx
        obtain ⟨hmem, hgrew⟩ := ih (up x) (seen ++ [x]) (insertNew visible x)
          (grew || decide (x ∉ visible)) h.next (by omega)
        refine ⟨fun y => ?_, ?_⟩
        · rw [hmem y, mem_insertNew]
          constructor
          · rintro ((hy | rfl) | ⟨hl, hns⟩)
            · exact .inl hy
            · exact .inr ⟨hxl, hx⟩
            · exact .inr ⟨hl, fun hin => hns (mem_append_left _ hin)⟩
          · rintro (hy | ⟨hl, hns⟩)
            · exact .inl (.inl hy)
            · by_cases hyx : y = x
              · exact .inl (.inr hyx)
              · exact .inr ⟨hl, by simp [hns, hyx]⟩
        · rw [hgrew]
          simp only [Bool.or_eq_true, decide_eq_true_eq]
          constructor
          · rintro ((hg | hnew) | ⟨y, hl, hns, hnv⟩)
            · exact .inl hg
            · exact .inr ⟨x, hxl, hx, hnew⟩
            · refine .inr ⟨y, hl, fun hin => hns (mem_append_left _ hin), ?_⟩
              exact fun hin => hnv (mem_insertNew.mpr (.inl hin))
          · rintro (hg | ⟨y, hl, hns, hnv⟩)
            · exact .inl (.inl hg)
            · by_cases hyx : y = x
              · exact .inl (.inr (hyx ▸ hnv))
              · exact .inr ⟨y, hl, by simp [hns, hyx], by simp [mem_insertNew, hnv, hyx]⟩

theorem missing_nil_lt : missing known [] < known.length + 2 := by
  have := missing_le known []
  omega

variable (hcov : Covers up known start)

include hcov

/-- **Climbing adds the lineage.** -/
theorem mem_climb : y ∈ (climb up known start visible).1 ↔ y ∈ visible ∨ Lineage up start y := by
  rw [climb, (climbLoop_spec hcov _ _ _ visible false (climbing_init start) missing_nil_lt).1 y]
  simp

theorem climb_grew : (climb up known start visible).2 ↔ ∃ y, Lineage up start y ∧ y ∉ visible := by
  rw [climb, (climbLoop_spec hcov _ _ _ visible false (climbing_init start) missing_nil_lt).2]
  simp

theorem reachesLoop_spec :
    ∀ (fuel : Nat) (cur : Option α) (seen : List α),
      Climbing up start cur seen → root ∉ seen → missing known seen < fuel →
      (reachesLoop up root fuel cur seen ↔ Lineage up start root) := by
  intro fuel
  induction fuel with
  | zero => intro cur seen _ _ hfuel; omega
  | succ fuel ih =>
    intro cur seen h hroot hfuel
    cases cur with
    | none =>
      refine iff_of_false (by simp [reachesLoop]) ?_
      exact fun hl => hroot (h.all (by simp) hl)
    | some x =>
      unfold reachesLoop
      by_cases hx : x ∈ seen
      · rw [if_pos hx]
        refine iff_of_false (by simp) fun hl => hroot (h.all ?_ hl)
        intro z hz
        rwa [← Option.some.inj hz]
      · rw [if_neg hx]
        have hxl := h.cur_lineage x rfl
        by_cases hxr : x = root
        · rw [if_pos hxr]
          exact iff_of_true rfl (hxr ▸ hxl)
        · rw [if_neg hxr]
          have hless := missing_snoc (hcov.lineage hxl) hx
          exact ih (up x) (seen ++ [x]) h.next (by simp [hroot, Ne.symm hxr]) (by omega)

/-- **The walk answers ancestry.** -/
theorem reaches_iff : reaches up known root start ↔ Lineage up start root :=
  reachesLoop_spec hcov _ _ _ (climbing_init start) not_mem_nil missing_nil_lt

end Climb

/-! ## §3. Spreading. -/

section Spread

variable (next : α → List α)

def freshOf (set : List α) : List α → List α
  | [] => []
  | x :: rest => if x ∈ set then freshOf set rest else x :: freshOf (set ++ [x]) rest

/-- Pop a node, add its new neighbours and push them: the top of the stack is the list's head. -/
def spreadLoop : Nat → List α → List α → List α
  | 0, _, visible => visible
  | _ + 1, [], visible => visible
  | fuel + 1, x :: stack, visible =>
    let fresh := freshOf visible (next x)
    spreadLoop fuel (fresh.reverse ++ stack) (visible ++ fresh)

/-- Spread from `start`, which is not added itself; `known` bounds the rounds. -/
def spread (known : List α) (start : α) (visible : List α) : List α :=
  spreadLoop next (known.length + 2) [start] visible

/-- What a spread finds: neighbours, and neighbours of what it found new. -/
inductive Found (visible : List α) (start : α) : α → Prop where
  | first {x : α} : x ∈ next start → Found visible start x
  | further {y x : α} : Found visible start y → y ∉ visible → x ∈ next y → Found visible start x

/-- What holds before every round of a spread from `start` over `visible₀`. -/
structure Spreading (visible₀ : List α) (start : α) (stack visible : List α) : Prop where
  kept : visible₀ ⊆ visible
  found : ∀ x ∈ visible, x ∈ visible₀ ∨ Found next visible₀ start x
  pushed : ∀ x ∈ stack, x = start ∨ (Found next visible₀ start x ∧ x ∉ visible₀)
  begun : start ∈ stack ∨ ∀ x ∈ next start, x ∈ visible
  closed : ∀ y, Found next visible₀ start y → y ∈ visible → y ∉ visible₀ →
    y ∈ stack ∨ ∀ x ∈ next y, x ∈ visible

variable {next} {x start : α} {known visible visible₀ : List α}

theorem mem_freshOf : x ∈ freshOf set children ↔ x ∈ children ∧ x ∉ set := by
  induction children generalizing set with
  | nil => simp [freshOf]
  | cons c rest ih =>
    unfold freshOf
    by_cases hc : c ∈ set
    · rw [if_pos hc, ih]
      constructor
      · exact fun h => ⟨mem_cons_of_mem _ h.1, h.2⟩
      · rintro ⟨hx, hns⟩
        rcases mem_cons.mp hx with rfl | hx
        · exact absurd hc hns
        · exact ⟨hx, hns⟩
    · rw [if_neg hc, mem_cons, ih]
      constructor
      · rintro (rfl | ⟨hx, hns⟩)
        · exact ⟨mem_cons_self, hc⟩
        · exact ⟨mem_cons_of_mem _ hx, fun hin => hns (mem_append_left _ hin)⟩
      · rintro ⟨hx, hns⟩
        by_cases hxc : x = c
        · exact .inl hxc
        · exact .inr ⟨(mem_cons.mp hx).resolve_left hxc, by simp [hns, hxc]⟩

theorem missing_freshOf {set children : List α} (h : ∀ x ∈ children, x ∈ known) :
    missing known (set ++ freshOf set children) + (freshOf set children).length ≤ missing known set := by
  induction children generalizing set with
  | nil => simp [freshOf]
  | cons c rest ih =>
    unfold freshOf
    have hrest : ∀ x ∈ rest, x ∈ known := fun x hx => h x (.tail _ hx)
    by_cases hc : c ∈ set
    · rw [if_pos hc]
      exact ih hrest
    · rw [if_neg hc]
      have hless := missing_snoc (h c (.head _)) hc
      have hmore := @ih (set ++ [c]) hrest
      rw [append_assoc, singleton_append] at hmore
      rw [length_cons]
      omega

theorem mem_append_freshOf (hy : y ∈ next x) : y ∈ visible ++ freshOf visible (next x) := by
  by_cases hin : y ∈ visible
  · exact mem_append_left _ hin
  · exact mem_append_right _ (mem_freshOf.mpr ⟨hy, hin⟩)

variable {stack : List α} (h : Spreading next visible₀ start (x :: stack) visible)

include h

omit [DecidableEq α] in
theorem Spreading.found_next (hy : y ∈ next x) : Found next visible₀ start y := by
  rcases h.pushed x (.head _) with rfl | ⟨hx, hnew⟩
  · exact .first hy
  · exact .further hx hnew hy

theorem Spreading.step :
    Spreading next visible₀ start ((freshOf visible (next x)).reverse ++ stack)
      (visible ++ freshOf visible (next x)) where
  kept := fun y hy => mem_append_left _ (h.kept hy)
  found := by
    intro y hy
    rcases mem_append.mp hy with hy | hy
    · exact h.found y hy
    · exact .inr (h.found_next (mem_freshOf.mp hy).1)
  pushed := by
    intro y hy
    rcases mem_append.mp hy with hy | hy
    · obtain ⟨hchild, hns⟩ := mem_freshOf.mp (mem_reverse.mp hy)
      exact .inr ⟨h.found_next hchild, fun hin => hns (h.kept hin)⟩
    · exact h.pushed y (.tail _ hy)
  begun := by
    rcases h.begun with hin | hall
    · rcases mem_cons.mp hin with rfl | hin
      · exact .inr fun y hy => mem_append_freshOf hy
      · exact .inl (mem_append_right _ hin)
    · exact .inr fun y hy => mem_append_left _ (hall y hy)
  closed := by
    intro y hfound hy hnew
    by_cases hold : y ∈ visible
    · rcases h.closed y hfound hold hnew with hin | hall
      · rcases mem_cons.mp hin with rfl | hin
        · exact .inr fun z hz => mem_append_freshOf hz
        · exact .inl (mem_append_right _ hin)
      · exact .inr fun z hz => mem_append_left _ (hall z hz)
    · have hfresh := (mem_append.mp hy).resolve_left hold
      exact .inl (mem_append_left _ (mem_reverse.mpr hfresh))

omit h

omit [DecidableEq α] in
theorem Spreading.all (h : Spreading next visible₀ start [] visible)
    (hx : Found next visible₀ start x) : x ∈ visible := by
  induction hx with
  | first hchild => exact h.begun.resolve_left not_mem_nil _ hchild
  | further hy hnew hchild ih =>
    exact (h.closed _ hy ih hnew).resolve_left not_mem_nil _ hchild

theorem spreadLoop_spec (hknown : ∀ x, ∀ y ∈ next x, y ∈ known) :
    ∀ (fuel : Nat) (stack visible : List α), Spreading next visible₀ start stack visible →
      stack.length + missing known visible ≤ fuel →
      Spreading next visible₀ start [] (spreadLoop next fuel stack visible) := by
  -- A round drops a stack entry and trades missing nodes for stack entries.
  intro fuel
  induction fuel with
  | zero =>
    intro stack visible h hfuel
    have hnil : stack = [] := length_eq_zero_iff.mp (by omega)
    subst hnil
    exact h
  | succ fuel ih =>
    intro stack visible h hfuel
    cases stack with
    | nil => exact h
    | cons x stack =>
      have hcost := @missing_freshOf _ _ known visible _ (hknown x)
      refine ih _ _ h.step ?_
      rw [length_append, length_reverse]
      rw [length_cons] at hfuel
      omega

/-- **A spread adds what it finds.** -/
theorem mem_spread (hknown : ∀ x, ∀ y ∈ next x, y ∈ known) :
    x ∈ spread next known start visible ↔ x ∈ visible ∨ Found next visible start x := by
  have hinit : Spreading next visible start [start] visible := {
    kept := List.Subset.refl _
    found := fun _ hx => .inl hx
    pushed := fun _ hx => .inl (mem_singleton.mp hx)
    begun := .inl (mem_singleton_self _)
    closed := fun y _ hy hnew => absurd hy hnew }
  have hfuel : [start].length + missing known visible ≤ known.length + 2 := by
    have := missing_le known visible
    rw [length_singleton]
    omega
  have hdone := spreadLoop_spec hknown _ _ _ hinit hfuel
  exact ⟨hdone.found x, fun h => h.elim (fun hx => hdone.kept hx) hdone.all⟩

end Spread

/-! ## §4. Saturating. -/

section Saturate

variable (pass : List α → List α × Bool)

def saturateLoop : Nat → List α → List α
  | 0, visible => visible
  | fuel + 1, visible =>
    let (visible', grew) := pass visible
    if grew then saturateLoop fuel visible' else visible'

/-- Saturate a set; `known` bounds the rounds. -/
def saturate (known : List α) (visible : List α) : List α :=
  saturateLoop pass (known.length + 1) visible

variable {pass} {known : List α} {P : List α → Prop} (hkeep : ∀ v, P v → P (pass v).1)
  (hgrow : ∀ v, v ⊆ (pass v).1) (hnew : ∀ v, P v → (pass v).2 → ∃ x ∈ known, x ∉ v ∧ x ∈ (pass v).1)

include hkeep hgrow hnew

theorem saturateLoop_spec :
    ∀ (fuel : Nat) (visible : List α), P visible → missing known visible < fuel →
      ∃ last, P last ∧ (pass last).2 = false ∧ saturateLoop pass fuel visible = (pass last).1 := by
  intro fuel
  induction fuel with
  | zero => intro visible _ hfuel; omega
  | succ fuel ih =>
    intro visible hP hfuel
    have hround : saturateLoop pass (fuel + 1) visible
        = if (pass visible).2 then saturateLoop pass fuel (pass visible).1 else (pass visible).1 := rfl
    rw [hround]
    by_cases hgrew : (pass visible).2
    · obtain ⟨x, hx, hnot, hin⟩ := hnew visible hP hgrew
      have hless := missing_lt (hgrow visible) hx hnot hin
      rw [if_pos hgrew]
      exact ih (pass visible).1 (hkeep visible hP) (by omega)
    · rw [if_neg hgrew]
      exact ⟨visible, hP, by simpa using hgrew, rfl⟩

/-- **Saturation ends** with a pass that adds nothing. -/
theorem saturate_spec (hP : P visible) :
    ∃ last, P last ∧ (pass last).2 = false ∧ saturate pass known visible = (pass last).1 := by
  refine saturateLoop_spec hkeep hgrow hnew _ visible hP ?_
  have := missing_le known visible
  omega

end Saturate

end Foundation.Visited
