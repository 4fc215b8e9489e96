/-
  **DO THE STORES OF A BRIDGE AGREE?** (`private_bridge.rs`, removals and
  imports in any number of stores.)

  Any store may plan a removal at any time, commit it later or never, and
  take in any package that was written, in any order and any number of
  times.  A rotation is planned from the generation its store is at and
  accepted by the number of the next one, so two removals planned from one
  generation make two different standards with one number.  As long as no
  removal is planned while the next generation is already in the world, all
  stores at one generation hold one standard.
-/
import KeyQuorum.PrivateBridge.Notice
import KeyQuorum.Foundation.Runs

namespace KeyQuorum.PrivateBridge

open List Foundation Letter

section Crypto

variable [Crypto] [KeyPairs] [SealedBoxes] {ι : Type} [DecidableEq ι]

/-! ## §1. Stores, plans and packages. -/

/-- The stores, the removals that were planned and the packages that were written. -/
structure World (ι : Type) where
  store : ι → Rosters
  planned : List (ι × PlannedRemoval)
  posted : List DeliveryPackage

/-- What can happen: a store plans a removal and writes its packages, it commits a plan it made, or a
package that was written is imported somewhere. -/
inductive Step (ι : Type) where
  | plan (site : ι) (draws : Draws) (uid removedLabel localLabel : String) (encryptionSk : Digest)
  | commit (index : Nat) (wrapSalt : Id16) (seed : Nat)
  | deliver (site : ι) (index : Nat) (recipientSecret : Digest) (seed : Nat)

/-- The outcome of a plan: its packages are written, or nothing happens. -/
def World.note (world : World ι) (site : ι) : Except Error PlannedRemoval → World ι
  | .ok planned =>
    { world with
      planned := world.planned ++ [(site, planned)], posted := world.posted ++ planned.packages }
  | .error _ => world

def Step.exec (world : World ι) : Step ι → World ι
  | .plan site draws uid removedLabel localLabel encryptionSk =>
    world.note site (planRemoveMember draws (world.store site) uid removedLabel localLabel encryptionSk)
  | .commit index wrapSalt seed =>
    match world.planned[index]? with
    | some (site, planned) =>
      { world with
        store := Function.update world.store site
          (commitPlannedRemoval planned wrapSalt seed (world.store site)).2 }
    | none => world
  | .deliver site index recipientSecret seed =>
    match world.posted[index]? with
    | some package =>
      { world with
        store := Function.update world.store site
          (importPackage seed package.bytes recipientSecret (world.store site)).2 }
    | none => world

/-! ## §2. Standards in the world. -/

section

variable (world : World ι) (uid : String) (number : UInt32) (standard : Standard)

def World.Keeps : Prop :=
  ∃ site bridge, (world.store site).find? uid = some bridge ∧ bridge.destroyed = false
    ∧ bridge.generation = number ∧ bridge.standard = standard

def World.Promises : Prop :=
  (∃ package ∈ world.posted, package.fields.uid = uid ∧ package.fields.kind ≠ kindDestroy
      ∧ package.announced.number = number ∧ package.announced.standard = standard)
    ∨ ∃ entry ∈ world.planned, ∃ generation : Generation, entry.2.RotatesTo uid generation
      ∧ generation.number = number ∧ generation.standard = standard

def World.Says : Prop :=
  world.Keeps uid number standard ∨ world.Promises uid number standard

end

def World.Agreed (world : World ι) : Prop :=
  ∀ uid number standard standard', world.Says uid number standard → world.Says uid number standard' →
    standard = standard'

/-- A removal that rotates is planned only if the next generation of the bridge is nowhere yet. -/
def Step.Unrivalled (world : World ι) : Step ι → Prop
  | .plan site _ uid removedLabel _ _ =>
    ∀ bridge, (world.store site).find? uid = some bridge →
      2 ≤ (remainingMembers bridge.summary removedLabel).entries.length →
      ∀ standard, ¬ world.Says uid (bridge.generation + 1) standard
  | _ => True

/-! ## §3. Steps. -/

variable {uid : String} {bridge : Bridge} {world : World ι} {db : Rosters} {planned : PlannedRemoval}
  {standard : Standard} {number : UInt32} {uid' : String}

omit [KeyPairs] in
/-- What is said after a store was rewritten was said before, if every live row of the new store is an
old one or has a standard that was said. -/
theorem World.says_of_update (h : ∀ uid bridge, db.find? uid = some bridge → bridge.destroyed = false →
      (world.store site).find? uid = some bridge ∨ world.Says uid bridge.generation bridge.standard)
    (htold : ({ world with store := Function.update world.store site db } : World ι).Says uid number
      standard) : world.Says uid number standard := by
  rcases htold with ⟨k, bridge, hfound, hlive, rfl, rfl⟩ | hpromises
  · by_cases hk : k = site
    · subst hk
      have hfound : db.find? uid = some bridge := by
        have hself : Function.update world.store k db k = db := Function.update_self ..
        rwa [← hself]
      rcases h uid bridge hfound hlive with hold | htold
      · exact .inl ⟨k, bridge, hold, hlive, rfl, rfl⟩
      · exact htold
    · have hother : Function.update world.store site db k = world.store k := Function.update_of_ne hk ..
      exact .inl ⟨k, bridge, hother ▸ hfound, hlive, rfl, rfl⟩
  · exact .inr hpromises

omit [KeyPairs] [DecidableEq ι] in
theorem World.Promises.says_row (hat : bridge.IsAt uid generation) (huid : bridge.uid = uid')
    (h : world.Promises uid generation.number generation.standard) :
    world.Says uid' bridge.generation bridge.standard := by
  rw [hat.number_eq, hat.standard_eq, ← huid, hat.uid_eq]
  exact .inr h

omit [KeyPairs] in
theorem commitPlannedRemoval_row
    (hfound : (commitPlannedRemoval planned wrapSalt seed db).2.find? uid = some bridge)
    (hlive : bridge.destroyed = false) :
    db.find? uid = some bridge ∨ ∃ generation : Generation, planned.RotatesTo uid generation
      ∧ bridge.IsAt uid generation := by
  cases hresult : (commitPlannedRemoval planned wrapSalt seed db).1 with
  | error e =>
    refine .inl ?_
    have hatomic : Op.Atomic (commitPlannedRemoval planned wrapSalt seed) := by
      unfold commitPlannedRemoval
      split
      · exact alter_atomic
      · exact alter_atomic
    rwa [← hatomic db e hresult]
  | ok u =>
    have hrun := Op.run_eq hresult
    generalize (commitPlannedRemoval planned wrapSalt seed db).2 = after at hfound hrun
    unfold commitPlannedRemoval at hrun
    cases hkind : planned.kind with
    | destroy =>
      rw [hkind] at hrun
      obtain ⟨row, row', hrow, hchange, rfl⟩ := alter_ok hrun
      rcases Table.find?_put_some hfound with rfl | hold
      · unfold Bridge.persistDestruction at hchange
        obtain ⟨-, hchange⟩ := else_ok hchange
        cases hchange
        cases hlive
      · exact .inl hold
    | rotate rotated localLabel expected generation secret =>
      rw [hkind] at hrun
      obtain ⟨row, row', hrow, hchange, rfl⟩ := alter_ok hrun
      rcases Table.find?_put_some hfound with rfl | hold
      · have hat := Bridge.persistRotation_ok hchange
        have huid : row.uid = uid := hat.uid_eq.symm.trans (Table.find?_some hfound).2
        have hrotated : row.uid = rotated := (Table.find?_some hrow).2
        exact .inr ⟨generation, ⟨localLabel, expected, secret, by rw [hkind, ← hrotated, huid]⟩,
          huid ▸ hat⟩
      · exact .inl hold

/-- An import leaves every live row as it was, or at the generation its package announces. -/
theorem importPackage_row (hgenuine : SealedBoxes.Genuine) {package : DeliveryPackage}
    (hfound : (importPackage seed package.bytes secret db).2.find? uid = some bridge)
    (hlive : bridge.destroyed = false) :
    db.find? uid = some bridge ∨ (package.fields.kind ≠ kindDestroy
      ∧ bridge.IsAt package.fields.uid package.announced) := by
  rcases importPackage_cases with ⟨e, hsame⟩ | ⟨decoded, bridge', db', hopens, hrun, hothers, hrow, hdid⟩
  · rw [hsame] at hfound
    exact .inl hfound
  · obtain ⟨_, hencoded⟩ := package.encoded
    obtain ⟨authSig, -, rfl⟩ := decodePackage_encodePackage hgenuine hencoded hopens.1
    rw [hrun] at hfound
    by_cases huid : uid = package.fields.uid
    · subst huid
      obtain rfl := Option.mem_unique hrow hfound
      change Did _ _ (db.find? package.fields.uid) at hdid
      generalize db.find? package.fields.uid = row at hdid
      cases hdid with
      | invited hkind hat => exact .inr ⟨hkind, hat⟩
      | rotated hkind hat => exact .inr ⟨hkind, hat⟩
      | destroyed _ _ _ heq => cases heq ▸ hlive
      | left _ hdead => cases hlive.symm.trans hdead
    · exact .inl ((hothers uid huid).symm.trans hfound)

omit [DecidableEq ι] in
theorem World.note_says
    (hplan : planRemoveMember draws (world.store site) uid removedLabel localLabel encryptionSk
      = .ok planned) (htold : (world.note site (.ok planned)).Says uid' number standard) :
    world.Says uid' number standard ∨ ∃ generation : Generation, planned.RotatesTo uid' generation
      ∧ generation.number = number ∧ generation.standard = standard := by
  obtain ⟨_, -, -, hpackages⟩ := planRemoveMember_ok hplan
  rcases htold with hkeeps | ⟨package, hmem, huid, hkind, hnumber, hstandard⟩ | ⟨entry, hmem, hentry⟩
  · exact .inl (.inl hkeeps)
  · rcases mem_append.mp hmem with hmem | hmem
    · exact .inl (.inr (.inl ⟨package, hmem, huid, hkind, hnumber, hstandard⟩))
    · obtain ⟨hpackage, hrotates⟩ := hpackages package hmem
      have hsame : uid' = uid := huid.symm.trans hpackage
      exact .inr ⟨package.announced, hsame ▸ hrotates hkind, hnumber, hstandard⟩
  · rcases mem_snoc.mp hmem with hmem | rfl
    · exact .inl (.inr (.inr ⟨entry, hmem, hentry⟩))
    · exact .inr hentry

/-- **The step**: an unrivalled step keeps one standard for each generation. -/
theorem Step.exec_agreed (hgenuine : SealedBoxes.Genuine) (hagreed : world.Agreed)
    (step : Step ι) (hstep : step.Unrivalled world) : (step.exec world).Agreed := by
  -- a step that says nothing new keeps the agreement
  have hquiet : ∀ world' : World ι,
      (∀ uid number standard, world'.Says uid number standard → world.Says uid number standard) →
      world'.Agreed := fun world' h uid number standard standard' hs hs' =>
    hagreed uid number standard standard' (h _ _ _ hs) (h _ _ _ hs')
  cases step with
  | plan site draws uid removedLabel localLabel encryptionSk =>
    show (world.note site _).Agreed
    cases hplan : planRemoveMember draws (world.store site) uid removedLabel localLabel encryptionSk with
    | error e => exact hagreed
    | ok planned =>
      obtain ⟨bridge, hbridge, hrotates, -⟩ := planRemoveMember_ok hplan
      -- the generation a plan makes was said nowhere
      have hnew : ∀ {uid' generation}, planned.RotatesTo uid' generation → ∀ standard,
          ¬ world.Says uid' generation.number standard := by
        intro uid' generation hrotation standard
        obtain ⟨rfl, hnext, hmany⟩ := hrotates uid' generation hrotation
        rw [hnext]
        exact hstep bridge hbridge hmany standard
      intro uid' number standard standard' hs hs'
      rcases World.note_says hplan hs with hold | ⟨generation, hgeneration, rfl, rfl⟩
      · rcases World.note_says hplan hs' with hold' | ⟨generation', hgeneration', rfl, rfl⟩
        · exact hagreed uid' number standard standard' hold hold'
        · exact absurd hold (hnew hgeneration' standard)
      · rcases World.note_says hplan hs' with hold' | ⟨generation', hgeneration', -, rfl⟩
        · exact absurd hold' (hnew hgeneration standard')
        · obtain ⟨_, _, _, hkind⟩ := hgeneration
          obtain ⟨_, _, _, hkind'⟩ := hgeneration'
          obtain ⟨-, -, -, rfl, -⟩ := PlannedRemovalKind.rotate.inj (hkind.symm.trans hkind')
          rfl
  | commit index =>
    refine hquiet _ fun uid number standard htold => ?_
    cases hentry : world.planned[index]? with
    | none =>
      simp only [Step.exec, hentry] at htold
      exact htold
    | some entry =>
      simp only [Step.exec, hentry] at htold
      refine World.says_of_update (fun uid bridge hfound hlive => ?_) htold
      rcases commitPlannedRemoval_row hfound hlive with hold | ⟨generation, hrotates, hat⟩
      · exact .inl hold
      · exact .inr (World.Promises.says_row hat hat.uid_eq
          (.inr ⟨entry, mem_of_getElem? hentry, generation, hrotates, rfl, rfl⟩))
  | deliver site index =>
    refine hquiet _ fun uid number standard htold => ?_
    cases hentry : world.posted[index]? with
    | none =>
      simp only [Step.exec, hentry] at htold
      exact htold
    | some package =>
      simp only [Step.exec, hentry] at htold
      refine World.says_of_update (fun uid bridge hfound hlive => ?_) htold
      rcases importPackage_row hgenuine hfound hlive with hold | ⟨hkind, hat⟩
      · exact .inl hold
      · exact .inr (World.Promises.says_row hat (Table.find?_some hfound).2
          (.inl ⟨package, mem_of_getElem? hentry, rfl, hkind, rfl, rfl⟩))

/-! ## §4. Runs. -/

/-- Two stores that are live at one generation of one bridge hold the same key, salt and roster. -/
def World.StoresAgree (world : World ι) : Prop :=
  ∀ site site' uid bridge bridge', (world.store site).find? uid = some bridge →
    (world.store site').find? uid = some bridge' → bridge.destroyed = false → bridge'.destroyed = false →
    bridge.generation = bridge'.generation →
    bridge.publicKey = bridge'.publicKey ∧ bridge.salt = bridge'.salt
      ∧ rosterOf bridge.parties.rows = rosterOf bridge'.parties.rows

omit [KeyPairs] [DecidableEq ι] in
theorem World.Agreed.storesAgree (h : world.Agreed) : world.StoresAgree := by
  intro site site' uid bridge bridge' hfound hfound' hlive hlive' hsame
  have hstandard : bridge.standard = bridge'.standard :=
    h uid bridge.generation _ _ (.inl ⟨site, bridge, hfound, hlive, rfl, rfl⟩)
      (.inl ⟨site', bridge', hfound', hlive', hsame.symm, rfl⟩)
  exact Standard.mk.inj hstandard

/-- **Agreement.** In every run in which no removal is planned while the next generation of its bridge is
already in the world, the stores agree in every state reached. -/
theorem World.run_agrees (hgenuine : SealedBoxes.Genuine) (world : World ι) (hagreed : world.Agreed)
    (steps : List (Step ι))
    (hsteps : Runs.Along Step.exec (fun world step => step.Unrivalled world) world steps)
    (n : Nat) : (Runs.run Step.exec world (steps.take n)).StoresAgree :=
  (hsteps.always (fun _ step hagreed hstep => Step.exec_agreed hgenuine hagreed step hstep) hagreed
    n).storesAgree

end Crypto

namespace Sample

attribute [local instance] Crypto.toy KeyPairs.toy SealedBoxes.toy

/-- The stores of `A` and `B` after their invitations. -/
def start : World Bool where
  store second := if second then founded "B" 12 else founded "A" 11
  planned := []
  posted := []

theorem start_rows : ∀ second, ∀ bridge ∈ (start.store second).rows,
    bridge.generation = 1 ∧ bridge.standard = (invitation "A" 11).announced.standard := by
  decide +kernel

theorem start_keeps (h : start.Says uid number standard) :
    number = 1 ∧ standard = (invitation "A" 11).announced.standard := by
  rcases h with ⟨second, bridge, hfound, -, rfl, rfl⟩ | ⟨_, hmem, -⟩ | ⟨_, hmem, -⟩
  · exact start_rows second bridge (Table.find?_some hfound).1
  · cases hmem
  · cases hmem

theorem start_agreed : start.Agreed := fun _ _ _ _ hs hs' => (start_keeps hs).2.trans (start_keeps hs').2.symm

/-- `A` removes `C` and commits, and `B` imports what `A` wrote. -/
def oneRemoval : List (Step Bool) :=
  [.plan false (draws 50) "u" "C" "A" (key 11), .commit 0 (.ofNat 16 1) 0,
    .deliver true 1 (key 12) 0]

theorem one_removal_agrees : (Runs.run Step.exec start (oneRemoval.take 3)).StoresAgree := by
  refine World.run_agrees SealedBoxes.toy_genuine start start_agreed oneRemoval ⟨?_, trivial, trivial, trivial⟩ 3
  intro bridge hbridge _ standard htold
  have hone : bridge.generation = 1 := (start_rows false bridge (Table.find?_some hbridge).1).1
  have htwo := (start_keeps htold).1
  rw [hone] at htwo
  exact absurd htwo (by decide)

/-- `A` and `B` both remove `C`, each planning from the first generation. -/
def rivalRemovals : List (Step Bool) :=
  [.plan false (draws 50) "u" "C" "A" (key 11), .plan true (draws 60) "u" "C" "B" (key 12),
    .commit 0 (.ofNat 16 1) 0, .commit 1 (.ofNat 16 1) 0]

/-- **Two removals from one generation leave two standards.** -/
theorem rival_removals_disagree :
    start.Agreed ∧ ¬ (Runs.run Step.exec start rivalRemovals).StoresAgree := by
  refine ⟨start_agreed, fun hagree => ?_⟩
  obtain ⟨⟨bridge, hbridge, hlive, hnumber, hkey⟩, bridge', hbridge', hlive', hnumber', hkey'⟩ :
      (∃ bridge, Rosters.get ((Runs.run Step.exec start rivalRemovals).store false) "u" = .ok bridge
        ∧ bridge.destroyed = false ∧ bridge.generation = 2 ∧ bridge.publicKey = key 50)
      ∧ ∃ bridge, Rosters.get ((Runs.run Step.exec start rivalRemovals).store true) "u" = .ok bridge
        ∧ bridge.destroyed = false ∧ bridge.generation = 2 ∧ bridge.publicKey = key 60 := by
    decide +kernel
  obtain ⟨hsame, -, -⟩ := hagree false true "u" bridge bridge' (okOr_ok hbridge) (okOr_ok hbridge') hlive
    hlive' (hnumber.trans hnumber'.symm)
  rw [hkey, hkey'] at hsame
  exact absurd hsame (by decide)

end Sample

end KeyQuorum.PrivateBridge
