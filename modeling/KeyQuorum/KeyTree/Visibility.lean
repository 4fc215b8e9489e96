/-
  **WHICH LABELS A LIST OF SEEDS CAN SEE** (`visible_from_maps` in
  `key_tree.rs`).

  A seed sees its ancestors, its siblings and what is below it; a link then
  brings its other end in, with the ancestors of that end.  The walk down
  from a seed stops at nodes that are visible already, whatever made them
  so, hence the order of the seeds counts.
-/
import KeyQuorum.KeyTree.Public

namespace KeyQuorum

open List Foundation Foundation.Forest

variable {edge : PublicEdge}

namespace Parents

/-! ## §1. The walks. -/

section Walks

variable (rows : ParentRows)

/-- `walk_ancestors`: the flag says whether anything was added. -/
def walkAncestors (start : String) (visible : List String) : List String × Bool :=
  Visited.climb (up rows) (start :: known rows) start visible

def addDescendants (start : String) (visible : List String) : List String :=
  Visited.spread (childrenOf rows) (known rows) start visible

def visitSeed (visible : List String) (seed : String) : List String :=
  match parentOf rows seed with
  | none => visible
  | some parent =>
    let visible := (walkAncestors rows seed visible).1
    let visible := addDescendants rows seed visible
    match parent with
    | none => visible
    | some parent => (childrenOf rows parent).foldl Visited.insertNew visible

def visitLink (state : List String × Bool) (edge : PublicEdge) : List String × Bool :=
  let (visible, grew) := state
  if visible.contains edge.from_ = visible.contains edge.to_ then (visible, grew)
  else
    let incoming := if visible.contains edge.from_ then edge.to_ else edge.from_
    let (visible, more) := walkAncestors rows incoming visible
    (visible, grew || more)

/-- One round of the `while grew` loop. -/
def visitLinks (links : List PublicEdge) (visible : List String) : List String × Bool :=
  links.foldl (visitLink rows) (visible, false)

def visibleFromMaps (links : List PublicEdge) (seeds : List String) : List String :=
  Visited.saturate (visitLinks rows links)
    (known rows ++ links.flatMap (fun edge => [edge.from_, edge.to_]))
    (seeds.foldl (visitSeed rows) [])

end Walks

/-! ## §2. What the seeds reach. -/

variable {more : List String}

section Reach

variable (rows : ParentRows)

def Known (seed : String) : Prop := seed ∈ rows.map Prod.fst

/-- An ancestor of `seed`, `seed` itself, or a sibling of it. -/
def Near (seed x : String) : Prop :=
  Lineage (up rows) seed x ∨ ∃ p, up rows seed = some p ∧ up rows x = some p

/-- Below `seed`, with nothing in between that is near an earlier seed. -/
def Clear (before : List String) (seed x : String) : Prop :=
  Below (up rows) seed x ∧ ∀ e ∈ before, Known rows e →
    ∀ m, Below (up rows) seed m → Below (up rows) m x → ¬ Near rows e m

inductive Seeded (seeds : List String) : String → Prop where
  | near {seed x : String} : seed ∈ seeds → Known rows seed → Near rows seed x → Seeded seeds x
  | below {before after : List String} {seed x : String} : seeds = before ++ seed :: after →
      Known rows seed → Clear rows before seed x → Seeded seeds x

inductive Reached (links : List PublicEdge) (seeds : List String) : String → Prop where
  | seeded {x : String} : Seeded rows seeds x → Reached links seeds x
  | link {edge : PublicEdge} {x : String} : edge ∈ links → Reached links seeds edge.from_ →
      Lineage (up rows) edge.to_ x → Reached links seeds x
  | linkBack {edge : PublicEdge} {x : String} : edge ∈ links → Reached links seeds edge.to_ →
      Lineage (up rows) edge.from_ x → Reached links seeds x

/-- What the seeds are meant to see: a set with their ancestors and themselves, everything below
them and their siblings, and with both ends of every link that it touches. -/
structure Closed (links : List PublicEdge) (seeds : List String) (K : Set String) : Prop where
  lineage : ∀ seed ∈ seeds, Known rows seed → ∀ x, Lineage (up rows) seed x → x ∈ K
  below : ∀ seed ∈ seeds, Known rows seed → ∀ x, Below (up rows) seed x → x ∈ K
  siblings : ∀ seed ∈ seeds, Known rows seed → ∀ p, up rows seed = some p →
    ∀ x, up rows x = some p → x ∈ K
  link : ∀ edge ∈ links, edge.from_ ∈ K → ∀ x, Lineage (up rows) edge.to_ x → x ∈ K
  linkBack : ∀ edge ∈ links, edge.to_ ∈ K → ∀ x, Lineage (up rows) edge.from_ x → x ∈ K

variable {rows} {seeds : List String} {x p : String} {links : List PublicEdge} {K : Set String}

theorem Seeded.mono (h : before <+: seeds) (hx : Seeded rows before x) : Seeded rows seeds x := by
  obtain ⟨rest, rfl⟩ := h
  cases hx with
  | near hin hknown hnear => exact .near (mem_append_left _ hin) hknown hnear
  | @below first after seed _ heq hknown hclear =>
    refine @Seeded.below _ _ first (after ++ rest) seed _ ?_ hknown hclear
    rw [heq, append_assoc, cons_append]

theorem Near.parent (h : Near rows seed x) (hp : up rows x = some p) : Near rows seed p := by
  rcases h with hline | ⟨q, hq, hx⟩
  · exact .inl (hline.parent hp)
  · rw [hp] at hx
    cases hx
    exact .inl ((Lineage.refl seed).parent hq)

/-- **The ancestors of what is reached are reached.** -/
theorem Seeded.parent (h : Seeded rows seeds x) (hp : up rows x = some p) : Seeded rows seeds p := by
  cases h with
  | near hin hknown hnear => exact .near hin hknown (hnear.parent hp)
  | @below before after seed _ heq hknown hclear =>
    obtain ⟨q, hq, hcases⟩ := below_cases hclear.1
    rw [hp] at hq
    cases hq
    rcases hcases with rfl | hbelow
    · exact .near (by simp [heq]) hknown (.inl (.refl _))
    · refine .below heq hknown ⟨hbelow, fun e he hek m hsm hmp => ?_⟩
      exact hclear.2 e he hek m hsm (hmp.trans (below_of_parent hp))

theorem Reached.parent (h : Reached rows links seeds x) (hp : up rows x = some p) :
    Reached rows links seeds p := by
  cases h with
  | seeded h => exact .seeded (h.parent hp)
  | link hin hend hline => exact .link hin hend (hline.parent hp)
  | linkBack hin hend hline => exact .linkBack hin hend (hline.parent hp)

theorem Reached.mem_closed (hK : Closed rows links seeds K) (h : Reached rows links seeds x) :
    x ∈ K := by
  induction h with
  | seeded h =>
    cases h with
    | near hin hknown hnear =>
      rcases hnear with hline | ⟨p, hp, hx⟩
      · exact hK.lineage _ hin hknown _ hline
      · exact hK.siblings _ hin hknown p hp _ hx
    | below heq hknown hclear => exact hK.below _ (by simp [heq]) hknown _ hclear.1
  | link hin _ hline ih => exact hK.link _ hin ih _ hline
  | linkBack hin _ hline ih => exact hK.linkBack _ hin ih _ hline

theorem Reached.mono {more : List PublicEdge} (hsub : links ⊆ more) (h : Reached rows links seeds x) :
    Reached rows more seeds x := by
  induction h with
  | seeded h => exact .seeded h
  | link hin _ hline ih => exact .link (hsub hin) ih hline
  | linkBack hin _ hline ih => exact .linkBack (hsub hin) ih hline

theorem Closed.mono (hK : Closed rows links more K) (hseeds : seeds ⊆ more) :
    Closed rows links seeds K where
  lineage := fun s hs => hK.lineage s (hseeds hs)
  below := fun s hs => hK.below s (hseeds hs)
  siblings := fun s hs => hK.siblings s (hseeds hs)
  link := hK.link
  linkBack := hK.linkBack

end Reach

/-! ## §3. The seeds' rounds. -/

section Seeds

variable {rows : ParentRows} {x seed : String} {visible : List String}

theorem mem_walkAncestors :
    x ∈ (walkAncestors rows start visible).1 ↔ x ∈ visible ∨ Lineage (up rows) start x :=
  Visited.mem_climb (covers start)

theorem mem_foldl_insertNew : x ∈ more.foldl Visited.insertNew visible ↔ x ∈ visible ∨ x ∈ more := by
  induction more generalizing visible with
  | nil => simp
  | cons y more ih =>
    rw [foldl_cons, ih, Visited.mem_insertNew, mem_cons, or_assoc]

theorem mem_visitSeed (hnodup : (rows.map Prod.fst).Nodup) :
    x ∈ visitSeed rows visible seed ↔ x ∈ visible ∨ Known rows seed ∧ (Near rows seed x
      ∨ Visited.Found (childrenOf rows) (walkAncestors rows seed visible).1 seed x) := by
  unfold visitSeed
  cases hparent : parentOf rows seed with
  | none =>
    have hunknown : ¬ Known rows seed := by
      intro hknown
      have hsome := parentOf_isSome.mpr hknown
      rw [hparent] at hsome
      cases hsome
    simp [hunknown]
  | some parent =>
    have hknown : Known rows seed := parentOf_isSome.mp (by rw [hparent]; rfl)
    have hup : up rows seed = parent := by
      unfold up
      rw [hparent]
      rfl
    have hdown : x ∈ addDescendants rows seed (walkAncestors rows seed visible).1
        ↔ (x ∈ visible ∨ Lineage (up rows) seed x)
          ∨ Visited.Found (childrenOf rows) (walkAncestors rows seed visible).1 seed x := by
      rw [← mem_walkAncestors]
      exact Visited.mem_spread fun _ _ h => mem_childrenOf_known h
    cases parent with
    | none =>
      show x ∈ addDescendants rows seed _ ↔ _
      rw [hdown]
      unfold Near
      rw [hup]
      simp [hknown, or_assoc]
    | some p =>
      show x ∈ (childrenOf rows p).foldl Visited.insertNew (addDescendants rows seed _) ↔ _
      rw [mem_foldl_insertNew, hdown, mem_childrenOf hnodup]
      unfold Near
      rw [hup]
      simp only [hknown, true_and, Option.some.injEq, exists_eq_left']
      tauto

/-- What is below an earlier seed, and clear of what came before the later one, was reached from
the earlier seed. -/
theorem Seeded.child (hp : up rows x = some p) (hbelow : Below (up rows) seed p)
    (hclear : Clear rows before seed x) (h : Seeded rows before p) : Seeded rows before x := by
  cases h with
  | near hin hknown hnear =>
    exact absurd hnear (hclear.2 _ hin hknown p hbelow (below_of_parent hp))
  | @below first after e _ heq hknown hclear' =>
    refine .below heq hknown ⟨hclear'.1.trans (below_of_parent hp), ?_⟩
    intro e' he' hknown' m hem hmx
    rcases between_of_parent hp hem hmx with rfl | ⟨hem, hmp⟩
    · exact hclear.2 e' (by simp [heq, he']) hknown' m hbelow (below_of_parent hp)
    · exact hclear'.2 e' he' hknown' m hem hmp

variable (hnodup : (rows.map Prod.fst).Nodup) (hacyclic : Acyclic (up rows))

include hnodup hacyclic

theorem found_clear (h : Visited.Found (childrenOf rows) visible seed x) :
    Below (up rows) seed x
      ∧ ∀ m, Below (up rows) seed m → Below (up rows) m x → m ∉ visible := by
  induction h with
  | @first x hchild =>
    have hp := (mem_childrenOf hnodup).mp hchild
    refine ⟨below_of_parent hp, fun m hsm hmx => ?_⟩
    rcases between_of_parent hp hsm hmx with rfl | ⟨hsm, hms⟩
    · exact absurd hsm (hacyclic m)
    · exact absurd (hsm.trans hms) (hacyclic seed)
  | @further y x _ hnew hchild ih =>
    have hp := (mem_childrenOf hnodup).mp hchild
    refine ⟨ih.1.trans (below_of_parent hp), fun m hsm hmx => ?_⟩
    rcases between_of_parent hp hsm hmx with rfl | ⟨hsm, hmy⟩
    · exact hnew
    · exact ih.2 m hsm hmy

theorem clear_found (hvisible : ∀ y, y ∈ visible ↔ Seeded rows before y) (h : Clear rows before seed x) :
    x ∈ visible ∨ Visited.Found (childrenOf rows) (walkAncestors rows seed visible).1 seed x := by
  -- Down the path from the seed, which is induction on `Below` from its lower end.
  obtain ⟨hbelow, hfree⟩ := h
  induction hbelow using Relation.TransGen.head_induction_on with
  | single hp => exact .inr (.first ((mem_childrenOf hnodup).mpr hp))
  | @head x p hp hrest ih =>
    replace hrest : Below (up rows) seed p := hrest
    have hxp : Below (up rows) p x := below_of_parent hp
    have hin := ih fun e he hek m hsm hmp => hfree e he hek m hsm (hmp.trans hxp)
    by_cases hpv : p ∈ visible
    · refine .inl ((hvisible x).mpr ?_)
      exact Seeded.child hp hrest ⟨hrest.trans hxp, hfree⟩ ((hvisible p).mp hpv)
    · refine .inr (.further (hin.resolve_left hpv) ?_ ((mem_childrenOf hnodup).mpr hp))
      rw [mem_walkAncestors]
      rintro (hin' | hline)
      · exact hpv hin'
      · rcases lineage_cases hline with rfl | habove
        · exact hacyclic p hrest
        · exact hacyclic p (habove.trans hrest)

/-- **The seeds' rounds make visible what the seeds reach.** -/
theorem mem_visitSeeds (seeds : List String) :
    ∀ x, x ∈ seeds.foldl (visitSeed rows) [] ↔ Seeded rows seeds x := by
  induction seeds using List.reverseRecOn with
  | nil =>
    intro x
    refine iff_of_false not_mem_nil ?_
    rintro (⟨hin, -, -⟩ | ⟨heq, -, -⟩)
    · exact absurd hin not_mem_nil
    · exact absurd heq (by simp)
  | append_singleton before seed ih =>
    intro x
    rw [foldl_append, foldl_cons, foldl_nil, mem_visitSeed hnodup, ih x]
    constructor
    · rintro (hx | ⟨hknown, hnear | hfound⟩)
      · exact hx.mono (prefix_append _ _)
      · exact .near (by simp) hknown hnear
      · obtain ⟨hbelow, hfree⟩ := found_clear hnodup hacyclic hfound
        refine .below rfl hknown ⟨hbelow, fun e he hek m hsm hmx hnear => ?_⟩
        refine hfree m hsm hmx (mem_walkAncestors.mpr (.inl ?_))
        exact (ih m).mpr (.near he hek hnear)
    · intro h
      cases h with
      | near hin hknown hnear =>
        rcases mem_snoc.mp hin with hin | rfl
        · exact .inl (.near hin hknown hnear)
        · exact .inr ⟨hknown, .inl hnear⟩
      | @below first after s _ heq hknown hclear =>
        rcases eq_nil_or_concat after with rfl | ⟨after', last, rfl⟩
        · obtain ⟨rfl, hs⟩ := append_inj' heq rfl
          obtain ⟨rfl, -⟩ := List.cons.inj hs
          rcases clear_found hnodup hacyclic ih hclear with hin | hfound
          · exact .inl ((ih x).mp hin)
          · exact .inr ⟨hknown, .inr hfound⟩
        · rw [concat_eq_append, ← cons_append, ← append_assoc] at heq
          obtain ⟨rfl, -⟩ := append_inj' heq rfl
          exact .inl (.below rfl hknown hclear)

end Seeds

/-! ## §4. The links' rounds. -/

section Links

variable {rows : ParentRows}

def UpClosed (rows : ParentRows) (visible : List String) : Prop :=
  ∀ x ∈ visible, ∀ a, Lineage (up rows) x a → a ∈ visible

structure Linked (rows : ParentRows) (edge : PublicEdge) (state next : List String × Bool) :
    Prop where
  kept : state.1 ⊆ next.1
  new : ∀ x ∈ next.1, x ∈ state.1 ∨ (edge.from_ ∈ state.1 ∧ Lineage (up rows) edge.to_ x)
    ∨ (edge.to_ ∈ state.1 ∧ Lineage (up rows) edge.from_ x)
  flag : next.2 = true ↔ state.2 = true ∨ ∃ x ∈ next.1, x ∉ state.1
  done : UpClosed rows state.1 → (edge.from_ ∈ next.1 ↔ edge.to_ ∈ next.1) ∧ UpClosed rows next.1

theorem visitLink_linked (edge : PublicEdge) (state : List String × Bool) :
    Linked rows edge state (visitLink rows state edge) := by
  obtain ⟨visible, grew⟩ := state
  unfold visitLink
  by_cases hsame : visible.contains edge.from_ = visible.contains edge.to_
  · dsimp only
    rw [if_pos hsame]
    refine ⟨List.Subset.refl _, fun x hx => .inl hx, ⟨.inl, ?_⟩, fun hup => ⟨?_, hup⟩⟩
    · rintro (h | ⟨x, hx, hnot⟩)
      · exact h
      · exact absurd hx hnot
    · rw [contains_eq_mem, contains_eq_mem, decide_eq_decide] at hsame
      exact hsame
  · dsimp only
    rw [if_neg hsame]
    -- the end that is visible, and the one that is not
    generalize hincoming : (if visible.contains edge.from_ then edge.to_ else edge.from_) = incoming
    have hends : (edge.from_ ∈ visible ∧ incoming = edge.to_)
        ∨ (edge.to_ ∈ visible ∧ incoming = edge.from_) := by
      by_cases hfrom : edge.from_ ∈ visible
      · exact .inl ⟨hfrom, by simp [← hincoming, hfrom]⟩
      · refine .inr ⟨?_, by simp [← hincoming, hfrom]⟩
        by_contra hto
        exact hsame (by simp [hfrom, hto])
    refine ⟨fun x hx => mem_walkAncestors.mpr (.inl hx), fun x hx => ?_, ?_, fun hup => ⟨?_, ?_⟩⟩
    · rcases mem_walkAncestors.mp hx with hx | hline
      · exact .inl hx
      · rcases hends with ⟨hfrom, rfl⟩ | ⟨hto, rfl⟩
        · exact .inr (.inl ⟨hfrom, hline⟩)
        · exact .inr (.inr ⟨hto, hline⟩)
    · have hgrew : (walkAncestors rows incoming visible).2
          ↔ ∃ x, Lineage (up rows) incoming x ∧ x ∉ visible :=
        Visited.climb_grew (covers incoming)
      show (grew || (walkAncestors rows incoming visible).2) ↔ _
      rw [Bool.or_eq_true, hgrew]
      refine or_congr_right ⟨?_, ?_⟩
      · rintro ⟨x, hline, hnot⟩
        exact ⟨x, mem_walkAncestors.mpr (.inr hline), hnot⟩
      · rintro ⟨x, hx, hnot⟩
        exact ⟨x, (mem_walkAncestors.mp hx).resolve_left hnot, hnot⟩
    · have hboth : ∀ y, y ∈ visible ∨ y = incoming → y ∈ (walkAncestors rows incoming visible).1 := by
        rintro y (hy | rfl)
        · exact mem_walkAncestors.mpr (.inl hy)
        · exact mem_walkAncestors.mpr (.inr (.refl _))
      rcases hends with ⟨hfrom, hinc⟩ | ⟨hto, hinc⟩
      · exact iff_of_true (hboth _ (.inl hfrom)) (hboth _ (.inr hinc.symm))
      · exact iff_of_true (hboth _ (.inr hinc.symm)) (hboth _ (.inl hto))
    · intro x hx a ha
      rcases mem_walkAncestors.mp hx with hx | hline
      · exact mem_walkAncestors.mpr (.inl (hup x hx a ha))
      · exact mem_walkAncestors.mpr (.inr (hline.trans ha))

structure LinkedAll (rows : ParentRows) (links edges : List PublicEdge) (seeds : List String)
    (state next : List String × Bool) : Prop where
  kept : state.1 ⊆ next.1
  reached : (∀ x ∈ state.1, Reached rows links seeds x) → ∀ x ∈ next.1, Reached rows links seeds x
  flag : next.2 = true ↔ state.2 = true ∨ ∃ x ∈ next.1, x ∉ state.1
  upClosed : UpClosed rows state.1 → UpClosed rows next.1
  still : next.2 = false → UpClosed rows state.1 →
    next.1 ⊆ state.1 ∧ ∀ edge ∈ edges, edge.from_ ∈ next.1 ↔ edge.to_ ∈ next.1

variable {links : List PublicEdge} {seeds : List String} {x : String}

theorem visitLinks_linkedAll
    (edges : List PublicEdge) (hsub : edges ⊆ links) (state : List String × Bool) :
    LinkedAll rows links edges seeds state (edges.foldl (visitLink rows) state) := by
  induction edges generalizing state with
  | nil =>
    refine ⟨List.Subset.refl _, fun h => h, ⟨.inl, ?_⟩, fun h => h,
      fun _ _ => ⟨List.Subset.refl _, nofun⟩⟩
    rintro (h | ⟨x, hx, hnot⟩)
    · exact h
    · exact absurd hx hnot
  | cons edge edges ih =>
    rw [foldl_cons]
    have hin : edge ∈ links := hsub (.head _)
    have hstep := @visitLink_linked rows edge state
    have hrest := ih (fun e he => hsub (.tail _ he)) (visitLink rows state edge)
    refine ⟨fun x hx => hrest.kept (hstep.kept hx), fun hall => hrest.reached fun x hx => ?_,
      ⟨fun hflag => ?_, fun h => ?_⟩, fun hup => hrest.upClosed (hstep.done hup).2, fun hflag hup => ?_⟩
    · rcases hstep.new x hx with hx | ⟨hfrom, hline⟩ | ⟨hto, hline⟩
      · exact hall x hx
      · exact .link hin (hall _ hfrom) hline
      · exact .linkBack hin (hall _ hto) hline
    · rcases hrest.flag.mp hflag with hflag | ⟨x, hx, hnot⟩
      · rcases hstep.flag.mp hflag with hflag | ⟨x, hx, hnot⟩
        · exact .inl hflag
        · exact .inr ⟨x, hrest.kept hx, hnot⟩
      · exact .inr ⟨x, hx, fun hin => hnot (hstep.kept hin)⟩
    · rcases h with hflag | ⟨x, hx, hnot⟩
      · exact hrest.flag.mpr (.inl (hstep.flag.mpr (.inl hflag)))
      · by_cases hmid : x ∈ (visitLink rows state edge).1
        · exact hrest.flag.mpr (.inl (hstep.flag.mpr (.inr ⟨x, hmid, hnot⟩)))
        · exact hrest.flag.mpr (.inr ⟨x, hx, hmid⟩)
    · obtain ⟨hsame, hends⟩ := hrest.still hflag (hstep.done hup).2
      -- no later link added anything, and neither did this one
      have hback : (visitLink rows state edge).1 ⊆ state.1 := by
        intro x hx
        by_contra hnot
        have hset := hrest.flag.mpr (.inl (hstep.flag.mpr (.inr ⟨x, hx, hnot⟩)))
        rw [hflag] at hset
        cases hset
      refine ⟨fun x hx => hback (hsame hx), fun e he => ?_⟩
      rcases mem_cons.mp he with rfl | he
      · have hiff := (hstep.done hup).1
        exact ⟨fun h => hrest.kept (hiff.mp (hsame h)), fun h => hrest.kept (hiff.mpr (hsame h))⟩
      · exact hends e he

theorem lineage_known (hin : edge ∈ links) (hend : y = edge.from_ ∨ y = edge.to_)
    (hline : Lineage (up rows) y x) :
    x ∈ known rows ++ links.flatMap (fun edge => [edge.from_, edge.to_]) := by
  cases hline with
  | refl =>
    refine mem_append_right _ (mem_flatMap.mpr ⟨edge, hin, ?_⟩)
    rcases hend with rfl | rfl <;> simp
  | tail _ hstep => exact mem_append_left _ (up_mem_known hstep)

theorem reached_known {visible : List String} (hseeded : ∀ y, Seeded rows seeds y → y ∈ visible)
    (h : Reached rows links seeds x) (hnot : x ∉ visible) :
    x ∈ known rows ++ links.flatMap (fun edge => [edge.from_, edge.to_]) := by
  cases h with
  | seeded h => exact absurd (hseeded x h) hnot
  | link hin _ hline => exact lineage_known hin (.inr rfl) hline
  | linkBack hin _ hline => exact lineage_known hin (.inl rfl) hline

/-- **What is visible is what is reached.** -/
theorem mem_visibleFromMaps (hnodup : (rows.map Prod.fst).Nodup) (hacyclic : Acyclic (up rows)) :
    x ∈ visibleFromMaps rows links seeds ↔ Reached rows links seeds x := by
  let P : List String → Prop := fun visible => UpClosed rows visible
    ∧ (∀ y ∈ visible, Reached rows links seeds y) ∧ ∀ y, Seeded rows seeds y → y ∈ visible
  have hpass : ∀ visible, LinkedAll rows links links seeds (visible, false)
      (visitLinks rows links visible) :=
    fun visible => visitLinks_linkedAll links (List.Subset.refl _) (visible, false)
  have hseeds := mem_visitSeeds hnodup hacyclic seeds
  have hinit : P (seeds.foldl (visitSeed rows) []) := by
    refine ⟨fun y hy a ha => ?_, fun y hy => .seeded ((hseeds y).mp hy), fun y => (hseeds y).mpr⟩
    refine (hseeds a).mpr ?_
    induction ha with
    | refl => exact (hseeds y).mp hy
    | tail _ hstep ih => exact ih.parent hstep
  have hkeep : ∀ v, P v → P (visitLinks rows links v).1 := fun v hv =>
    ⟨(hpass v).upClosed hv.1, (hpass v).reached hv.2.1, fun y hy => (hpass v).kept (hv.2.2 y hy)⟩
  have hnew : ∀ v, P v → (visitLinks rows links v).2 →
      ∃ y ∈ known rows ++ links.flatMap (fun edge => [edge.from_, edge.to_]),
        y ∉ v ∧ y ∈ (visitLinks rows links v).1 := by
    intro v hv hflag
    obtain ⟨y, hy, hnot⟩ := ((hpass v).flag.mp hflag).resolve_left (by simp)
    refine ⟨y, ?_, hnot, hy⟩
    exact reached_known hv.2.2 ((hpass v).reached hv.2.1 y hy) hnot
  obtain ⟨last, hlast, hstop, hresult⟩ :=
    Visited.saturate_spec hkeep (fun v => (hpass v).kept) hnew hinit
  obtain ⟨hsame, hends⟩ := (hpass last).still hstop hlast.1
  have hP := hkeep last hlast
  unfold visibleFromMaps
  rw [hresult]
  constructor
  · exact hP.2.1 x
  · intro h
    -- nothing was added in the last round, so its set holds both ends of every link or neither
    induction h with
    | seeded h => exact hP.2.2 _ h
    | link hin _ hline ih => exact hP.1 _ ((hends _ hin).mp ih) _ hline
    | linkBack hin _ hline ih => exact hP.1 _ ((hends _ hin).mpr ih) _ hline

end Links

end Parents

/-! ## §5. A published tree. -/

namespace PublicTree

open Parents (Closed Reached)

def visibleLabelsInPublicTree (full : PublicTree) (seeds : List String) : List String :=
  Parents.visibleFromMaps full.rows full.links seeds

variable {t : PublicTree} {label : String}

theorem Valid.acyclic (h : t.Valid) : Acyclic t.up := by
  intro x hcycle
  obtain ⟨p, hp, -⟩ := below_cases hcycle
  obtain ⟨node, hnode, rfl, -⟩ := up_some hp
  obtain ⟨root, hroot, hnone, -⟩ := h.exists_root
  have hup : t.up root.label = none := by rw [up_of_node h.nodup hroot, hnone]
  exact acyclic_of_root hup (h.rooted node hnode root hroot hnone) hcycle

variable {seeds visible : List String} {seed : String}

theorem Valid.mem_visible (h : t.Valid) :
    x ∈ t.visibleLabelsInPublicTree seeds ↔ Reached t.rows t.links seeds x := by
  refine Parents.mem_visibleFromMaps ?_ h.acyclic
  rw [rows_labels]
  exact h.nodup

/-- Nothing below a known seed is missed: it is near a seed, or below one with nothing in between
that is near a seed listed earlier, or behind a link. -/
def Covered (t : PublicTree) (seeds : List String) : Prop :=
  ∀ seed ∈ seeds, seed ∈ t.labels → ∀ x, Below t.up seed x → Reached t.rows t.links seeds x

theorem known_rows : Parents.Known t.rows seed ↔ seed ∈ t.labels := by
  unfold Parents.Known
  rw [rows_labels]

theorem covered_iff_closed :
    Covered t seeds ↔ Closed t.rows t.links seeds {x | Reached t.rows t.links seeds x} := by
  constructor
  · intro h
    refine ⟨fun s hs hk x hx => .seeded (.near hs hk (.inl hx)),
      fun s hs hk x hx => h s hs (known_rows.mp hk) x hx,
      fun s hs hk p hp x hx => .seeded (.near hs hk (.inr ⟨p, hp, hx⟩)),
      fun e he hend x hx => .link he hend hx, fun e he hend x hx => .linkBack he hend hx⟩
  · intro h seed hseed hlabel x hx
    exact h.below seed hseed (known_rows.mpr hlabel) x hx

theorem covered_of_ordered (h : seeds.Pairwise fun earlier later => ¬ Below t.up later earlier) :
    Covered t seeds := by
  intro seed hseed hlabel x hx
  obtain ⟨before, after, rfl⟩ := append_of_mem hseed
  refine .seeded (.below rfl (known_rows.mpr hlabel) ⟨hx, fun e he _ m hsm _ hnear => ?_⟩)
  -- what is near `e` and below the seed has `e` below the seed
  refine (pairwise_append.mp h).2.2 e he seed (.head _) ?_
  rcases hnear with hline | ⟨p, hep, hmp⟩
  · rcases lineage_cases hline with rfl | hbelow
    · exact hsm
    · exact hsm.trans hbelow
  · obtain ⟨q, hq, hcases⟩ := below_cases hsm
    obtain rfl : p = q := Option.mem_unique hmp hq
    rcases hcases with rfl | hbelow
    · exact below_of_parent hep
    · exact hbelow.trans (below_of_parent hep)

namespace Sample

def branch (label : String) (parent : Option String) : PublicNode :=
  ⟨label, parent, some 1, true, none, none⟩

def leaf (label parent fingerprint key : String) : PublicNode :=
  ⟨label, some parent, none, true, some fingerprint, some key⟩

def org : PublicTree where
  label := "org"
  generation := 1
  nodes := [branch "M" none, branch "M.A" (some "M"), branch "M.S" (some "M"),
    leaf "M.A.1" "M.A" "a1" "3b6a27bcceb6a42d62a3a8d02a6f0d73653215771de243a63ac048a18b59da29",
    leaf "M.S.1" "M.S" "s1" "8a88e3dd7409f195fd52db2d3cba5d72ca6709bf1d94121bf3748801b40f6f5c"]
  whitelist := [⟨"M.A", "M.S"⟩]
  links := [⟨"M.S", "M.A"⟩]

end Sample

/-- **When the visible set is the least one.**  For every list of seeds: the visible set is the
least set that is closed exactly when nothing below a known seed is missed; more seeds then see
more, whatever their order, and the order of the links never counts. -/
theorem visible_isLeast_iff (hvalid : validatePublicTree t = .ok ()) (seeds : List String) :
    (IsLeast {K | Closed t.rows t.links seeds K} {x | x ∈ t.visibleLabelsInPublicTree seeds}
        ↔ Covered t seeds)
      ∧ (∀ more, seeds ⊆ more → Covered t more →
        t.visibleLabelsInPublicTree seeds ⊆ t.visibleLabelsInPublicTree more)
      ∧ (∀ other, other.Perm seeds → Covered t seeds → Covered t other →
        ∀ x, x ∈ t.visibleLabelsInPublicTree other ↔ x ∈ t.visibleLabelsInPublicTree seeds)
      ∧ ∀ links, links.Perm t.links → ∀ x, x ∈ visibleLabelsInPublicTree { t with links } seeds
          ↔ x ∈ t.visibleLabelsInPublicTree seeds := by
  have h := validatePublicTree_ok_iff.mp hvalid
  have hnodup : (t.rows.map Prod.fst).Nodup := by
    rw [rows_labels]
    exact h.nodup
  have hset : ∀ seeds, {x | x ∈ t.visibleLabelsInPublicTree seeds}
      = {x | Reached t.rows t.links seeds x} :=
    fun seeds => Set.ext fun x => h.mem_visible
  have hmore : ∀ less more, less ⊆ more → Covered t more →
      t.visibleLabelsInPublicTree less ⊆ t.visibleLabelsInPublicTree more := by
    intro less more hsub hcovered x hx
    have hclosed := (covered_iff_closed.mp hcovered).mono hsub
    exact h.mem_visible.mpr ((h.mem_visible.mp hx).mem_closed hclosed)
  refine ⟨?_, fun more => hmore seeds more, fun other hperm hseeds hother x => ?_,
    fun links hperm x => ?_⟩
  · rw [hset seeds, covered_iff_closed]
    constructor
    · exact fun hleast => hleast.1
    · exact fun hclosed => ⟨hclosed, fun K hK x hx => hx.mem_closed hK⟩
  · exact ⟨fun hx => hmore other seeds hperm.subset hseeds hx,
      fun hx => hmore seeds other hperm.symm.subset hother hx⟩
  · show x ∈ Parents.visibleFromMaps t.rows links seeds ↔ x ∈ Parents.visibleFromMaps t.rows t.links seeds
    rw [Parents.mem_visibleFromMaps hnodup h.acyclic, Parents.mem_visibleFromMaps hnodup h.acyclic]
    exact ⟨fun hx => hx.mono hperm.subset, fun hx => hx.mono hperm.symm.subset⟩

theorem visible_isLeast_iff_sample :
    validatePublicTree Sample.org = .ok () ∧
      IsLeast {K | Closed Sample.org.rows Sample.org.links ["M", "M.S"] K}
        {x | x ∈ Sample.org.visibleLabelsInPublicTree ["M", "M.S"]} := by
  have hvalid : validatePublicTree Sample.org = .ok () := by decide +kernel
  refine ⟨hvalid, (visible_isLeast_iff hvalid ["M", "M.S"]).1.mpr (covered_of_ordered ?_)⟩
  rw [pairwise_pair]
  intro hbelow
  obtain ⟨p, hp, -⟩ := below_cases hbelow
  exact absurd hp (by rw [show Sample.org.up "M" = none by decide +kernel]; simp)

/-- Seeing from a branch first and from the root second misses the leaf of the other branch. -/
theorem visible_misses_below : validatePublicTree Sample.org = .ok () ∧
    ¬ IsLeast {K | Closed Sample.org.rows Sample.org.links ["M.S", "M"] K}
      {x | x ∈ Sample.org.visibleLabelsInPublicTree ["M.S", "M"]} := by
  refine ⟨by decide +kernel, fun hleast => ?_⟩
  have hA : Sample.org.up "M.A.1" = some "M.A" := by decide +kernel
  have hM : Sample.org.up "M.A" = some "M" := by decide +kernel
  have hbelow : Below Sample.org.up "M" "M.A.1" :=
    (below_of_parent hM).trans (below_of_parent hA)
  have hknown : Parents.Known Sample.org.rows "M" := by
    unfold Parents.Known
    decide +kernel
  have hin : "M.A.1" ∈ Sample.org.visibleLabelsInPublicTree ["M.S", "M"] :=
    hleast.1.below "M" (by simp) hknown "M.A.1" hbelow
  exact absurd hin (by decide +kernel)

/-! ## §6. Slices. -/

def filterPublicTree (full : PublicTree) (visible : List String) : PublicTree where
  label := full.label
  generation := full.generation
  nodes := full.nodes.filter fun node => visible.contains node.label
  whitelist := full.whitelist.filter fun edge => edge.inside visible
  links := full.links.filter fun edge => edge.inside visible

theorem Valid.visible_parent (h : t.Valid) (hx : x ∈ t.visibleLabelsInPublicTree seeds)
    (hp : t.up x = some p) : p ∈ t.visibleLabelsInPublicTree seeds :=
  h.mem_visible.mpr ((h.mem_visible.mp hx).parent hp)

theorem Valid.seed_visible (h : t.Valid) (hin : seed ∈ seeds) (hlabel : seed ∈ t.labels) :
    seed ∈ t.visibleLabelsInPublicTree seeds :=
  h.mem_visible.mpr (.seeded (.near hin (known_rows.mpr hlabel) (.inl (.refl seed))))

theorem mem_inside {labels : List String} :
    edge.inside labels ↔ edge.from_ ∈ labels ∧ edge.to_ ∈ labels := by
  unfold PublicEdge.inside
  simp

theorem filterPublicTree_labels (visible : List String) :
    (filterPublicTree t visible).labels = t.labels.filter fun label => visible.contains label := by
  unfold filterPublicTree labels
  rw [filter_map]
  rfl

theorem mem_filterPublicTree_labels :
    label ∈ (filterPublicTree t visible).labels ↔ label ∈ t.labels ∧ label ∈ visible := by
  rw [filterPublicTree_labels, mem_filter, contains_eq_mem, decide_eq_true_iff]

/-- **A slice of a tree is a tree**, if it holds the parents of what it holds. -/
theorem Valid.filterPublicTree (h : t.Valid) (hup : ∀ x ∈ visible, ∀ p, t.up x = some p → p ∈ visible)
    (hsome : ∃ x ∈ t.labels, x ∈ visible) : (t.filterPublicTree visible).Valid := by
  have hkeep : ∀ node ∈ t.nodes, node.label ∈ visible → node ∈ (t.filterPublicTree visible).nodes :=
    fun node hnode hin => mem_filter.mpr ⟨hnode, by simpa using hin⟩
  have hback : ∀ node ∈ (t.filterPublicTree visible).nodes, node ∈ t.nodes ∧ node.label ∈ visible := by
    intro node hnode
    obtain ⟨hin, hvis⟩ := mem_filter.mp hnode
    exact ⟨hin, by simpa using hvis⟩
  have hnodup : (t.filterPublicTree visible).labels.Nodup := by
    rw [filterPublicTree_labels]
    exact h.nodup.filter _
  have hall : ∀ {x a : String}, x ∈ visible → Lineage t.up x a → a ∈ visible := by
    intro x a hx ha
    induction ha with
    | refl => exact hx
    | tail _ hstep ih => exact hup _ ih _ hstep
  have hline : ∀ {x a : String}, x ∈ visible → Lineage t.up x a →
      Lineage (t.filterPublicTree visible).up x a := by
    intro x a hx ha
    induction ha with
    | refl => exact .refl x
    | @tail y p hy hstep ih =>
      obtain ⟨node, hnode, rfl, hparent⟩ := up_some hstep
      refine ih.parent ?_
      rw [up_of_node hnodup (hkeep node hnode (hall hx hy)), hparent]
  obtain ⟨root, hroot⟩ := h.oneRoot
  obtain ⟨hrootMem, hrootNone⟩ := (mem_of_oneRoot hroot).mpr rfl
  have hrootVisible : root.label ∈ visible := by
    obtain ⟨x, hx, hvis⟩ := hsome
    obtain ⟨node, hnode, rfl⟩ := mem_labels.mp hx
    exact hall hvis (h.rooted node hnode root hrootMem hrootNone)
  have hedge : ∀ edge ∈ t.whitelist ++ t.links, edge.inside visible →
      edge.from_ ≠ edge.to_ ∧ edge.from_ ∈ (t.filterPublicTree visible).labels
        ∧ edge.to_ ∈ (t.filterPublicTree visible).labels := by
    intro edge hin hinside
    obtain ⟨hne, hfrom, hto⟩ := h.edges edge hin
    obtain ⟨hfromVis, htoVis⟩ := mem_inside.mp hinside
    exact ⟨hne, mem_filterPublicTree_labels.mpr ⟨hfrom, hfromVis⟩,
      mem_filterPublicTree_labels.mpr ⟨hto, htoVis⟩⟩
  refine ⟨h.label_ne, fun node hnode => h.labels_ne node (hback node hnode).1, hnodup,
    fun node hnode => h.shaped node (hback node hnode).1, ⟨root, ?_⟩, ?_, ?_,
    h.whitelistNodup.filter _, h.linksNodup.filter _, ?_, ?_⟩
  · show (t.nodes.filter _).filter _ = _
    rw [filter_comm, hroot]
    simpa using hrootVisible
  · intro node hnode parent hparent
    obtain ⟨hin, hvis⟩ := hback node hnode
    refine mem_filterPublicTree_labels.mpr ⟨h.parents node hin parent hparent, ?_⟩
    exact hup node.label hvis parent (by rw [up_of_node h.nodup hin, hparent])
  · intro edge hin
    rcases mem_append.mp hin with hin | hin
    · obtain ⟨hin, hinside⟩ := mem_filter.mp hin
      exact hedge edge (mem_append_left _ hin) hinside
    · obtain ⟨hin, hinside⟩ := mem_filter.mp hin
      exact hedge edge (mem_append_right _ hin) hinside
  · -- the whitelist entry behind a link has the same two ends, so it is kept with it
    intro edge hin
    obtain ⟨hin, hinside⟩ := mem_filter.mp hin
    rcases h.listed edge hin with hlisted | hlisted
    · exact .inl (mem_filter.mpr ⟨hlisted, hinside⟩)
    · exact .inr (mem_filter.mpr ⟨hlisted, mem_inside.mpr (mem_inside.mp hinside).symm⟩)
  · intro node hnode other hother hnone
    obtain ⟨hin, hvis⟩ := hback node hnode
    exact hline hvis (h.rooted node hin other (hback other hother).1 hnone)

end PublicTree

end KeyQuorum
