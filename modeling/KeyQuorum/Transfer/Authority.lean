/-
  **WHAT AN ACTOR CAN HAND OVER.**

  `authorize` goes by the dots of the labels, `select_export` by the parent
  links of the identities.  Enrolling keeps the two in step; a package
  brings its own links, which nothing compares with the labels.  While
  every package keeps them in step, an export ends and stays below the
  actor.
-/
import KeyQuorum.Transfer.World
import Mathlib.Algebra.Order.BigOperators.Group.List

namespace KeyQuorum.Transfer

open List Foundation Ledger

/-! ## §1. Labels. -/

/-- `label` is `ancestor`, a dot and more; the more may be empty, since `validate_slot_label` takes `M.` too,
with the parent `M`. -/
def Below (label ancestor : String) : Prop :=
  ∃ rest, label.toList = ancestor.toList ++ '.' :: rest

theorem Below.trans (hab : Below a b) (hbc : Below b c) : Below a c := by
  obtain ⟨rest, hrest⟩ := hab
  obtain ⟨rest', hrest'⟩ := hbc
  exact ⟨rest' ++ '.' :: rest, by rw [hrest, hrest', append_assoc, cons_append]⟩

variable {label : String}

theorem Below.length_lt (h : Below label ancestor) : ancestor.length < label.length := by
  obtain ⟨rest, hrest⟩ := h
  have := congrArg List.length hrest
  rw [length_append, length_cons, String.length_toList, String.length_toList] at this
  omega

theorem below_of_isStrictDescendant (h : isStrictDescendant label ancestor) : Below label ancestor := by
  unfold isStrictDescendant at h
  split at h
  next rest hdrop =>
    obtain ⟨front, hlabel, hfront⟩ := dropPrefix?_eq_some_iff.mp hdrop
    obtain rfl := eq_of_beq hfront
    rw [Bool.and_eq_true, decide_eq_true_eq] at h
    obtain ⟨more, rfl⟩ := head?_eq_some_iff.mp h.1
    exact ⟨more, hlabel⟩
  next => cases h

theorem below_of_parentNodeLabel (h : parentNodeLabel label = some parent) : Below label parent := by
  obtain ⟨⟨before, after⟩, hsplit, rfl⟩ := Option.map_eq_some_iff.mp h
  exact ⟨after, by rw [String.toList_ofList, rsplitOnce_some hsplit]⟩

/-! ## §2. Ledgers whose links go up the dots. -/

def IdentityRow.InOrder (row : IdentityRow) : Prop :=
  ∀ parent, row.parentLabel = some parent → Below row.label parent

theorem enrolledRow_inOrder [Crypto] (id : Id16) (label : String) (keys : Digest × Digest) :
    (enrolledRow id label keys).InOrder := fun _ => below_of_parentNodeLabel

theorem Later.rows (h : Later P a b) (hrows : ∀ row ∈ a.identities.rows, P row) :
    ∀ row ∈ b.identities.rows, P row := by
  induction h with
  | refl => exact hrows
  | tail _ hstep ih =>
    cases hstep with
    | identity state generation hrow hid =>
      intro row hmem
      rw [rows_withIdentity hid] at hmem
      rcases mem_snoc.mp hmem with hmem | rfl
      · exact ih row hmem
      · exact hrow
    | keys => exact ih
    | possession => exact ih
    | atLeast => exact ih
    | transactions htx =>
      rw [htx.sameHeld.identities_eq]
      exact ih

section Exports

variable {ledger : Ledger} {label : String} {descendants : DescendantMode}

section

variable (horder : ∀ row ∈ ledger.identities.rows, row.InOrder)

include horder

theorem Ledger.below_of_mem_childrenOf (h : child ∈ ledger.childrenOf label) :
    Below child label ∧ ∃ row ∈ ledger.identities.rows, row.label = child := by
  unfold childrenOf at h
  rw [mem_insertionSort] at h
  obtain ⟨row, hrow, rfl⟩ := mem_map.mp h
  obtain ⟨hmem, hparent⟩ := mem_filter.mp hrow
  exact ⟨horder row hmem label (by simpa using hparent), row, hmem, rfl⟩

theorem Ledger.descendantsOf_ends (label : String) :
    ∃ rounds below, ledger.descendantsOf rounds label = some below := by
  refine Walk.loop_ends String.length (ledger.identities.rows.map fun row => row.label.length).sum
    (fun parent child hchild => ?_) _ _
  obtain ⟨hbelow, row, hrow, rfl⟩ := below_of_mem_childrenOf horder hchild
  exact ⟨hbelow.length_lt, single_le_sum (fun _ _ => Nat.zero_le _) _ (mem_map_of_mem hrow)⟩

theorem Ledger.below_of_mem_exportedBelow
    (h : ledger.exportedBelow rounds label descendants = some below) :
    ∀ child ∈ below, Below child label := by
  have hchild : ∀ child ∈ ledger.childrenOf label, Below child label :=
    fun child hchild => (below_of_mem_childrenOf horder hchild).1
  cases descendants with
  | keyOnly =>
    cases h
    exact nofun
  | directChildren =>
    cases h
    exact hchild
  | allDescendants =>
    refine Walk.loop_forall (P := fun child => Below child label) ?_ h ?_ fun _ hmem =>
      absurd hmem not_mem_nil
    · intro parent hparent child hmem
      exact (below_of_mem_childrenOf horder hmem).1.trans hparent
    · intro child hmem
      exact hchild child (mem_reverse.mp hmem)

theorem Ledger.selectExport_ends (descendants : DescendantMode) :
    ∃ rounds result, ledger.selectExport rounds label descendants = some result := by
  obtain ⟨rounds, subtree, hsubtree⟩ := descendantsOf_ends horder label
  have hbelow : ∃ below, ledger.exportedBelow rounds label descendants = some below := by
    cases descendants with
    | keyOnly => exact ⟨[], rfl⟩
    | directChildren => exact ⟨ledger.childrenOf label, rfl⟩
    | allDescendants => exact ⟨subtree, hsubtree⟩
  obtain ⟨below, hbelow⟩ := hbelow
  refine ⟨rounds, ?_⟩
  unfold selectExport
  split
  · exact ⟨_, rfl⟩
  · exact ⟨_, rfl⟩
  · rw [hbelow, hsubtree]
    exact ⟨_, rfl⟩

end

theorem Ledger.authorize_ok (h : ledger.authorize actor label operation descendants auth = .ok ()) :
    label = actor ∨ Below label actor := by
  obtain ⟨-, h⟩ := else_ok h
  split at h
  next => cases h
  next => cases h
  next =>
    dsimp only at h
    by_cases hself : actor = label
    · exact .inl hself.symm
    · rw [if_neg hself] at h
      cases hbelow : isStrictDescendant label actor with
      | true => exact .inr (below_of_isStrictDescendant hbelow)
      | false => simp [hbelow] at h

end Exports

/-! ## §3. Runs. -/

section Runs

variable [Crypto] [KeyPairs] {ι : Type} [DecidableEq ι]

def Action.Orderly (world : World ι) : Action ι → Prop
  | .commitRows here source package _ | .accept here source package _ _ =>
    ∀ bundle, openBundle package source (world here).container.deviceId = .ok bundle →
      ∀ entry ∈ bundle.entries, entry.row.InOrder
  | _ => True

def World.OrderlyRun (world : World ι) (calls : List (Action ι × Option Nat)) : Prop :=
  Runs.Along World.step (fun world call => call.1.Orderly world) world calls

variable {world : World ι}

omit [DecidableEq ι] in
theorem Action.Orderly.admits {action : Action ι} (h : action.Orderly world) :
    action.Admits IdentityRow.InOrder world := by
  cases action with
  | enroll => exact enrolledRow_inOrder
  | commitRows => exact h
  | accept => exact h
  | _ => trivial

theorem World.run_inOrder (hstart : ∀ k, ∀ row ∈ (world k).ledger.identities.rows, row.InOrder)
    (horderly : world.OrderlyRun calls) (k : ι) :
    ∀ row ∈ (world.run calls k).ledger.identities.rows, row.InOrder :=
  Runs.Along.invariant (I := fun world => ∀ k, ∀ row ∈ (world k).ledger.identities.rows, row.InOrder)
    horderly (fun _ call hrows h k => (Action.exec_onward h.admits call.2 k).ledger.rows (hrows k))
    hstart k

/-- **Exports end and stay below the actor**, in every store whose packages kept the links in order. -/
theorem World.export_stays_below (world : World ι)
    (hstart : ∀ k, ∀ row ∈ (world k).ledger.identities.rows, row.InOrder)
    (calls : List (Action ι × Option Nat)) (horderly : world.OrderlyRun calls) (here : ι)
    (actor label : String) (operation : TransferOp) (descendants : DescendantMode) (auth : TransferAuth)
    (hauth : (world.run calls here).ledger.authorize actor label operation descendants auth = .ok ()) :
    (∃ rounds result, (world.run calls here).ledger.selectExport rounds label descendants = some result)
      ∧ ∀ rounds secrets hints, (world.run calls here).ledger.selectExport rounds label descendants
            = some (.ok (secrets, hints)) →
          ∀ secret ∈ secrets, (secret = label ∨ Below secret label)
            ∧ (secret = actor ∨ Below secret actor) := by
  have horder := World.run_inOrder hstart horderly here
  refine ⟨selectExport_ends horder descendants, fun rounds secrets hints hexport => ?_⟩
  obtain ⟨below, hbelow, rfl, -⟩ := selectExport_ok hexport
  have hactor := authorize_ok hauth
  intro secret hsecret
  rcases mem_cons.mp hsecret with rfl | hsecret
  · exact ⟨.inl rfl, hactor⟩
  · have hlabel := below_of_mem_exportedBelow horder hbelow secret (mem_filter.mp hsecret).1
    refine ⟨.inr hlabel, ?_⟩
    rcases hactor with rfl | hactor
    · exact .inr hlabel
    · exact .inr (hlabel.trans hactor)

end Runs

namespace Sample

attribute [local instance] crypto keyPairs

/-- Device 2 enrolls `M` and `M.S`. -/
def enrollTwo : List (Action Bool × Option Nat) :=
  [(.enroll true (.ofNat 16 21) (.ofNat 32 21) (.ofNat 32 22) "M" "p", none),
    (.enroll true (.ofNat 16 23) (.ofNat 32 23) (.ofNat 32 24) "M.S" "p",
      none)]

theorem enrolled_export_stays_below :
    (∃ rounds result, (start.run enrollTwo true).ledger.selectExport rounds "M" .allDescendants
        = some result)
      ∧ ∀ rounds secrets hints, (start.run enrollTwo true).ledger.selectExport rounds "M" .allDescendants
            = some (.ok (secrets, hints)) →
          ∀ secret ∈ secrets, (secret = "M" ∨ Below secret "M") ∧ (secret = "M" ∨ Below secret "M") := by
  have hempty : ∀ k, (start k).ledger.identities.rows = [] := by decide
  refine World.export_stays_below start (fun k row hrow => ?_) enrollTwo ⟨trivial, trivial, trivial⟩ true
    "M" "M" .copy .allDescendants {} (by decide +kernel)
  rw [hempty k] at hrow
  cases hrow

def entry (n : Nat) (label : String) (parent : Option String) : BundleEntry where
  identityId := .ofNat 16 n
  generation := Generation.first
  label := label
  parentLabel := parent
  encPublic := .ofNat 32 n
  signPublic := .ofNat 32 (n + 1)
  encFingerprint := Store.fingerprint (.ofNat 32 n : Digest).bytes
  signFingerprint := Store.fingerprint (.ofNat 32 (n + 1) : Digest).bytes
  secrets := some (.ofNat 32 n, .ofNat 32 (n + 1))

def packageOf (entries : List BundleEntry) : Bytes :=
  ((encodeBundle (device 1 []) ⟨.ofNat 16 1, .copy, .keyOnly, .ofNat 16 1,
    .ofNat 16 2, "A", "A", entries⟩).toOption).getD []

def afterPackage (entries : List BundleEntry) : Ledger :=
  (start.run [(.accept true (device 1 []).key (packageOf entries) passphrases false, none)] true).ledger

/-- **A link that leaves the dots takes an unrelated key along, and one that loops keeps the export
going for ever.** -/
theorem foreign_link_leaks :
    ((afterPackage [entry 31 "A" none, entry 33 "B" (some "A")]).authorize "A" "A" .copy
          .directChildren {} = .ok ()
        ∧ (afterPackage [entry 31 "A" none, entry 33 "B" (some "A")]).selectExport 5 "A" .directChildren
          = some (.ok (["A", "B"], []))
        ∧ ¬ ("B" = "A" ∨ Below "B" "A"))
      ∧ (afterPackage [entry 31 "A" (some "A")]).authorize "A" "A" .copy .keyOnly {} = .ok ()
      ∧ ∀ rounds, (afterPackage [entry 31 "A" (some "A")]).selectExport rounds "A" .keyOnly = none := by
  have hbelow : ¬ ("B" = "A" ∨ Below "B" "A") := by
    rintro (h | ⟨rest, h⟩)
    · exact absurd h (by decide)
    · cases h
  obtain ⟨hauth, hactive, hchildren⟩ :
      (afterPackage [entry 31 "A" (some "A")]).authorize "A" "A" .copy .keyOnly {} = .ok ()
        ∧ (afterPackage [entry 31 "A" (some "A")]).possession "A" = some .active
        ∧ (afterPackage [entry 31 "A" (some "A")]).childrenOf "A" = ["A"] := by
    decide +kernel
  refine ⟨⟨by decide +kernel, by decide +kernel, hbelow⟩, hauth, fun rounds => ?_⟩
  have hloop : (afterPackage [entry 31 "A" (some "A")]).descendantsOf rounds "A" = none := by
    unfold descendantsOf
    rw [hchildren]
    exact Walk.loop_cycle hchildren rounds []
  unfold selectExport
  rw [hactive, hloop]
  rfl

end Sample

end KeyQuorum.Transfer
