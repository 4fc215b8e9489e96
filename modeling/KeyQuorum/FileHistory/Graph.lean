/-
  **THE REVISION DAG** (`RevisionGraph` in `file_history/revision.rs`).

  A read-only view of the stored revisions.  On a list stored parents-first
  (which verification enforces) the view's loops compute what they are
  named for.
-/
import KeyQuorum.FileHistory.Revision
import KeyQuorum.Foundation.Dag
import KeyQuorum.Foundation.Marking

namespace KeyQuorum

open List Foundation

/-- `HeadRelation` of an incoming head. -/
inductive HeadRelation where
  | equal
  | incomingAhead
  | incomingBehind
  | diverged
  deriving DecidableEq, Repr

/-- `MergeBase` of two revisions. -/
inductive MergeBase where
  | unique (id : Digest)
  | ambiguous
  | none
  deriving DecidableEq, Repr

namespace RevisionGraph

/-! ## §1. The view. -/

section

variable (revisions : List StoredRevision)

/-- `get`: the first revision stored under an id. -/
def get (id : Digest) : Option StoredRevision :=
  revisions.find? (fun stored => stored.id = id)

/-- `heads`: ids no revision names as a parent, in storage order. -/
def heads : List Digest :=
  let parents := revisions.flatMap StoredRevision.parents
  (revisions.map StoredRevision.id).filter (fun id => !parents.contains id)

/-- `index_of`, as a lookup: the map is collected in order, so the last index of an id wins. -/
def indexOf (id : Digest) : Option Nat :=
  (revisions.zipIdx.reverse.find? (fun entry => entry.1.id = id)).map Prod.snd

def parentsAt (i : Nat) : List Digest :=
  (revisions.map StoredRevision.parents).getD i []

def parentsOf (id : Digest) : List Digest :=
  match indexOf revisions id with
  | some i => parentsAt revisions i
  | none => []

/-- `is_ancestor_or_self`: an unknown id is never an ancestor; then a stack search. -/
def isAncestorOrSelf (ancestor descendant : Digest) : Bool :=
  if (indexOf revisions ancestor).isNone then false
  else Marking.search (parentsOf revisions) ancestor (revisions.map StoredRevision.id) descendant

/-- `mark_ancestors`: by storage index, `id` and everything reachable from it. -/
def markAncestors (id : Digest) : List Bool :=
  Marking.mark (indexOf revisions) (revisions.map StoredRevision.parents) id

/-- `ancestor_set`: `id` and every revision reachable from it. -/
def ancestorSet (id : Digest) : List Digest :=
  ((revisions.zip (markAncestors revisions id)).filter (fun entry => entry.2)).map
    (fun entry => entry.1.id)

/-- One round of the reverse pass of `merge_base`: `covered` marks the strict ancestors of a
common ancestor, `nearest` collects the common ancestors that are not covered. -/
def mergeBaseStep (fromA fromB : List Bool)
    (state : List Bool × List Digest) (entry : StoredRevision × Nat) : List Bool × List Digest :=
  let (covered, nearest) := state
  let (stored, i) := entry
  let common := fromA.getD i false && fromB.getD i false
  let isCovered := covered.getD i false
  let nearest := if common && !isCovered then nearest ++ [stored.id] else nearest
  let covered :=
    if common || isCovered then
      stored.parents.foldl (fun covered parent =>
        match indexOf revisions parent with
        | some p => covered.set p true
        | none => covered) covered
    else covered
  (covered, nearest)

def mergeBase (a b : Digest) : MergeBase :=
  let fromA := markAncestors revisions a
  let fromB := markAncestors revisions b
  let final := revisions.zipIdx.reverse.foldl (mergeBaseStep revisions fromA fromB)
    (List.replicate revisions.length false, [])
  match final.2 with
  | [] => .none
  | [only] => .unique only
  | _ => .ambiguous

/-- `compare`: structural only, never by timestamp. -/
def compare (local_ incoming : Digest) : Except Error HeadRelation :=
  if (get revisions local_).isNone || (get revisions incoming).isNone then
    .error .invalidTrackedFile
  else
    .ok (if local_ = incoming then .equal
      else if isAncestorOrSelf revisions local_ incoming then .incomingAhead
      else if isAncestorOrSelf revisions incoming local_ then .incomingBehind
      else .diverged)

end

/-! ## §2. Lookups. -/

variable {revisions : List StoredRevision} {id : Digest} {stored : StoredRevision} {i : Nat}

theorem get_some (h : get revisions id = some stored) : stored ∈ revisions ∧ stored.id = id :=
  ⟨mem_of_find?_eq_some h, by simpa using List.find?_some h⟩

theorem get_isSome :
    (get revisions id).isSome ↔ id ∈ Dag.keys StoredRevision.id revisions := by
  simp [get, Dag.keys]

theorem get_of_mem
    (hinj : ∀ a ∈ revisions, ∀ b ∈ revisions, a.id = b.id → a = b) (h : stored ∈ revisions) :
    get revisions stored.id = some stored := by
  have hsome : (get revisions stored.id).isSome := get_isSome.mpr (Dag.mem_keys_of_mem h)
  obtain ⟨found, hfound⟩ := Option.isSome_iff_exists.mp hsome
  obtain ⟨hmem, hid⟩ := get_some hfound
  rw [hfound, hinj found hmem stored h hid]

theorem get_append_of_some (h : get revisions id = some stored) :
    get (revisions ++ more) id = some stored := by
  rw [get, find?_append]
  rw [get] at h
  rw [h]
  rfl

theorem indexOf_some (h : indexOf revisions id = some i) :
    ∃ stored, revisions[i]? = some stored ∧ stored.id = id := by
  rw [indexOf, Option.map_eq_some_iff] at h
  obtain ⟨⟨stored, j⟩, hfind, rfl⟩ := h
  have hmem := mem_of_find?_eq_some hfind
  rw [mem_reverse, mem_zipIdx_iff_getElem?] at hmem
  exact ⟨stored, hmem, by simpa using List.find?_some hfind⟩

theorem indexOf_lt (h : indexOf revisions id = some i) : i < revisions.length := by
  obtain ⟨_, hget, -⟩ := indexOf_some h
  exact (List.getElem?_eq_some_iff.mp hget).1

theorem indexOf_isSome :
    (indexOf revisions id).isSome ↔ id ∈ Dag.keys StoredRevision.id revisions := by
  constructor
  · intro h
    obtain ⟨i, hi⟩ := Option.isSome_iff_exists.mp h
    obtain ⟨stored, hget, hid⟩ := indexOf_some hi
    exact ⟨stored, mem_of_getElem? hget, hid⟩
  · rintro ⟨stored, hmem, hid⟩
    obtain ⟨j, hj⟩ := mem_iff_getElem?.mp hmem
    rw [indexOf, Option.isSome_map, find?_isSome]
    refine ⟨(stored, j), ?_, by simp [hid]⟩
    rw [mem_reverse, mem_zipIdx_iff_getElem?]
    exact hj

/-! ## §3. Heads and ancestors of a list stored parents-first. -/

section ParentsFirst

variable {revisions : List StoredRevision}

theorem mem_heads :
    id ∈ heads revisions ↔ Dag.IsHead StoredRevision.id StoredRevision.parents revisions id := by
  simp only [heads, mem_filter, mem_map, Bool.not_eq_eq_eq_not, Bool.not_true,
    contains_eq_mem, decide_eq_false_iff_not, mem_flatMap, not_exists, not_and]
  exact .rfl

section

variable (hinj : ∀ a ∈ revisions, ∀ b ∈ revisions, a.id = b.id → a = b)

include hinj

theorem mem_parentsOf :
    p ∈ parentsOf revisions d ↔ Dag.Link StoredRevision.id StoredRevision.parents revisions d p := by
  unfold parentsOf
  cases hi : indexOf revisions d with
  | none =>
    refine ⟨nofun, ?_⟩
    rintro ⟨stored, hmem, hid, -⟩
    have hsome : (indexOf revisions d).isSome := indexOf_isSome.mpr ⟨stored, hmem, hid⟩
    rw [hi] at hsome
    cases hsome
  | some i =>
    obtain ⟨stored, hget, hid⟩ := indexOf_some hi
    have hat : parentsAt revisions i = stored.parents := by
      simp [parentsAt, getD_eq_getElem?_getD, hget]
    have hmem := mem_of_getElem? hget
    dsimp only
    rw [hat]
    constructor
    · exact fun h => ⟨stored, hmem, hid, h⟩
    · rintro ⟨other, hother, hid', hp⟩
      rwa [hinj stored hmem other hother (hid.trans hid'.symm)]

theorem step_iff_link :
    Marking.Step (indexOf revisions) (revisions.map StoredRevision.parents) d p ↔
      Dag.Link StoredRevision.id StoredRevision.parents revisions d p := by
  rw [← mem_parentsOf hinj]
  unfold Marking.Step parentsOf
  cases indexOf revisions d with
  | none => simp
  | some i => simp [parentsAt]

end

variable (hpf : Dag.ParentsFirst StoredRevision.id StoredRevision.parents ∅ revisions)

include hpf

theorem indexOf_iff :
    indexOf revisions id = some i ↔ ∃ stored, revisions[i]? = some stored ∧ stored.id = id := by
  refine ⟨indexOf_some, ?_⟩
  rintro ⟨stored, hget, rfl⟩
  obtain ⟨j, hj⟩ := Option.isSome_iff_exists.mp (indexOf_isSome.mpr (Dag.mem_keys_of_mem (mem_of_getElem? hget)))
  obtain ⟨other, hother, hid⟩ := indexOf_some hj
  -- ids are unique, so the index found is the one given
  have hsame : (revisions.map StoredRevision.id)[i]? = (revisions.map StoredRevision.id)[j]? := by
    simp [hget, hother, hid]
  have hlt : i < (revisions.map StoredRevision.id).length := by
    simpa using (List.getElem?_eq_some_iff.mp hget).1
  rw [hj, (getElem?_inj hlt hpf.nodup_keys).mp hsame]

/-- **The marks are on the reachable revisions.** -/
theorem markAncestors_iff {id : Digest} {i : Nat} :
    (markAncestors revisions id)[i]? = some true ↔ ∃ stored, revisions[i]? = some stored
      ∧ Dag.Reach StoredRevision.id StoredRevision.parents revisions id stored.id := by
  have hinj := fun a ha b hb => hpf.key_inj (a := a) (b := b) ha hb
  have hindex : ∀ k i, indexOf revisions k = some i →
      i < (revisions.map StoredRevision.parents).length := by
    intro k i h
    rw [length_map]
    exact indexOf_lt h
  have hstep : Marking.Step (indexOf revisions) (revisions.map StoredRevision.parents)
      = Dag.Link StoredRevision.id StoredRevision.parents revisions := by
    funext d p
    exact propext (step_iff_link hinj)
  have hmark := Marking.mark_iff hindex id i
  rw [hstep] at hmark
  refine hmark.trans ⟨?_, ?_⟩
  · rintro ⟨k, hreach, hk⟩
    obtain ⟨stored, hget, rfl⟩ := indexOf_some hk
    exact ⟨stored, hget, hreach⟩
  · rintro ⟨stored, hget, hreach⟩
    exact ⟨stored.id, hreach, (indexOf_iff hpf).mpr ⟨stored, hget, rfl⟩⟩

theorem mem_ancestorSet :
    a ∈ ancestorSet revisions id ↔ a ∈ Dag.keys StoredRevision.id revisions ∧
      Dag.Reach StoredRevision.id StoredRevision.parents revisions id a := by
  simp only [ancestorSet, mem_map, mem_filter]
  constructor
  · rintro ⟨⟨stored, m⟩, ⟨hzip, rfl⟩, rfl⟩
    obtain ⟨i, hi⟩ := mem_iff_getElem?.mp hzip
    rw [getElem?_zip_eq_some] at hi
    obtain ⟨other, hother, hreach⟩ := (markAncestors_iff hpf).mp hi.2
    obtain rfl : stored = other := Option.mem_unique hi.1 hother
    exact ⟨Dag.mem_keys_of_mem (mem_of_getElem? hi.1), hreach⟩
  · rintro ⟨⟨stored, hmem, rfl⟩, hreach⟩
    obtain ⟨i, hi⟩ := mem_iff_getElem?.mp hmem
    refine ⟨(stored, true), ⟨mem_of_getElem? (i := i) ?_, rfl⟩, rfl⟩
    rw [getElem?_zip_eq_some]
    exact ⟨hi, (markAncestors_iff hpf).mpr ⟨stored, hi, hreach⟩⟩

/-- **The search answers ancestry.** -/
theorem isAncestorOrSelf_iff {ancestor descendant : Digest} :
    isAncestorOrSelf revisions ancestor descendant ↔
      ancestor ∈ Dag.keys StoredRevision.id revisions ∧
        Dag.Reach StoredRevision.id StoredRevision.parents revisions descendant ancestor := by
  have hinj := fun a ha b hb => hpf.key_inj (a := a) (b := b) ha hb
  have hlinks : (fun d p => p ∈ parentsOf revisions d)
      = Dag.Link StoredRevision.id StoredRevision.parents revisions := by
    funext d p
    exact propext (mem_parentsOf hinj)
  have hknown : ∀ k, k ∉ revisions.map StoredRevision.id → parentsOf revisions k = [] := by
    intro k hk
    refine eq_nil_iff_forall_not_mem.mpr (fun p hp => ?_)
    obtain ⟨stored, hmem, hid, -⟩ := (mem_parentsOf hinj).mp hp
    exact hk (mem_map.mpr ⟨stored, hmem, hid⟩)
  have hsearch : Marking.search (parentsOf revisions) ancestor (revisions.map StoredRevision.id)
      descendant ↔ _ := Marking.search_iff hknown descendant
  rw [hlinks] at hsearch
  rw [isAncestorOrSelf, ← indexOf_isSome]
  cases indexOf revisions ancestor with
  | none => simp
  | some i => simpa [Dag.Reach] using hsearch

end ParentsFirst

end RevisionGraph

end KeyQuorum
