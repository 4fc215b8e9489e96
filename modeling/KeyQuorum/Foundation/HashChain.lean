/-
  **HASH CHAINS COMMIT TO THEIR HISTORY.**

  Entries carry the hash of the entry before them and a hash of their own.
  If the hash separates the entries at hand, and no entry hashes to the
  chain's start, then the last hash determines the whole list.
  Separation is asked only of the entries of the two chains compared: a
  fixed-width hash is never injective on all inputs, so a global hypothesis
  could not be met.
-/
import KeyQuorum.Foundation.Bytes

namespace Foundation.HashChain

open List

variable {E H : Type} (prev hash : E → H)

/-- Each entry names the hash before it, the first one names `start`. -/
def Linked : H → List E → Prop
  | _, [] => True
  | start, e :: es => prev e = start ∧ Linked (hash e) es

/-- The last hash of the chain, or `start` when it is empty. -/
def tip : H → List E → H
  | start, [] => start
  | _, e :: es => tip (hash e) es

variable {prev hash} {xs ys : List E}

theorem tip_append (start : H) (xs ys : List E) :
    tip hash start (xs ++ ys) = tip hash (tip hash start xs) ys := by
  induction xs generalizing start with
  | nil => rfl
  | cons x xs ih => exact ih (hash x)

theorem linked_append (start : H) (xs ys : List E) :
    Linked prev hash start (xs ++ ys) ↔
      Linked prev hash start xs ∧ Linked prev hash (tip hash start xs) ys := by
  induction xs generalizing start with
  | nil => exact ⟨fun h => ⟨trivial, h⟩, fun h => h.2⟩
  | cons x xs ih =>
    show (prev x = start ∧ Linked prev hash (hash x) (xs ++ ys)) ↔ _
    rw [ih (hash x)]
    exact ⟨fun h => ⟨⟨h.1, h.2.1⟩, h.2.2⟩, fun h => ⟨h.1.1, h.1.2, h.2⟩⟩

theorem tip_mem (hash : E → H) (start : H) (xs : List E) :
    (xs = [] ∧ tip hash start xs = start) ∨ ∃ x ∈ xs, tip hash start xs = hash x := by
  induction xs generalizing start with
  | nil => exact .inl ⟨rfl, rfl⟩
  | cons x xs ih =>
    right
    rcases ih (hash x) with ⟨rfl, htip⟩ | ⟨y, hy, htip⟩
    · exact ⟨x, mem_cons_self, htip⟩
    · exact ⟨y, mem_cons_of_mem _ hy, htip⟩

variable {start : H} (hx : Linked prev hash start xs) (hy : Linked prev hash start ys)
  (separates : ∀ x ∈ xs, ∀ y ∈ ys, hash x = hash y → x = y)
  (freshX : ∀ x ∈ xs, hash x ≠ start) (freshY : ∀ y ∈ ys, hash y ≠ start)

include hx hy separates freshX freshY

/-- **A chain is determined by its tip.** -/
theorem eq_of_tip_eq (htip : tip hash start xs = tip hash start ys) : xs = ys := by
  -- Induction from the END of the chain: the last entries agree, hence so do their links.
  induction xs using List.reverseRecOn generalizing ys with
  | nil =>
    rcases tip_mem hash start ys with ⟨rfl, -⟩ | ⟨y, hmem, hy'⟩
    · rfl
    · exact absurd (hy'.symm.trans htip.symm) (freshY y hmem)
  | append_singleton xs x ih =>
    rcases eq_nil_or_concat ys with rfl | ⟨ys, y, rfl⟩
    · rw [tip_append] at htip
      exact absurd htip (freshX x (by simp))
    · rw [concat_eq_append] at hy separates freshY htip ⊢
      rw [tip_append, tip_append] at htip
      have hxy : x = y := separates x (by simp) y (by simp) htip
      subst hxy
      obtain ⟨hxs, hlast, -⟩ := (linked_append start xs [x]).mp hx
      obtain ⟨hys, hlast', -⟩ := (linked_append start ys [x]).mp hy
      have hrest : xs = ys :=
        ih hxs hys (fun a ha b hb => separates a (mem_append_left _ ha) b (mem_append_left _ hb))
          (fun a ha => freshX a (mem_append_left _ ha))
          (fun b hb => freshY b (mem_append_left _ hb))
          (hlast.symm.trans hlast')
      rw [hrest]

/-- **A chain whose tip another chain passes through is a prefix of it.** -/
theorem prefix_of_tip_mem
    (hmem : tip hash start ys = start ∨ ∃ x ∈ xs, hash x = tip hash start ys) : ys <+: xs := by
  rcases hmem with htip | ⟨x, hxmem, htip⟩
  · rcases tip_mem hash start ys with ⟨rfl, -⟩ | ⟨y, hmem, hy'⟩
    · exact nil_prefix
    · exact absurd (hy'.symm.trans htip) (freshY y hmem)
  · -- cut the longer chain right after the entry that carries the tip
    obtain ⟨pre, post, rfl⟩ := append_of_mem hxmem
    have hsplit : pre ++ x :: post = (pre ++ [x]) ++ post := by simp
    rw [hsplit] at hx separates freshX ⊢
    have hcut : pre ++ [x] = ys := by
      refine eq_of_tip_eq ((linked_append start _ _).mp hx).1 hy ?_ ?_ freshY ?_
      · exact fun a ha => separates a (mem_append_left _ ha)
      · exact fun a ha => freshX a (mem_append_left _ ha)
      · rw [tip_append]
        exact htip
    rw [hcut]
    exact prefix_append _ _

end Foundation.HashChain
