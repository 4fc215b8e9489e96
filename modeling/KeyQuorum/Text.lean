/-
  **STRING SPLITTING, AS `str` DOES IT.**

  The source splits labels, timestamps and file contents with `split_once`,
  `rsplit_once` and `split_inclusive`.  All separators are ASCII, so cutting
  a list of characters is the same as cutting the UTF-8 bytes.
-/
import KeyQuorum.Foundation.Bytes
import Mathlib.Data.List.DropRight

namespace KeyQuorum

open List

/-- `split_once`: the text before and after the first separator. -/
def splitOnce (sep : Char) (s : List Char) : Option (List Char × List Char) :=
  match s.dropWhile (fun c => c ≠ sep) with
  | [] => none
  | _ :: rest => some (s.takeWhile (fun c => c ≠ sep), rest)

/-- `rsplit_once`: the text before and after the last separator. -/
def rsplitOnce (sep : Char) (s : List Char) : Option (List Char × List Char) :=
  (splitOnce sep s.reverse).map (fun halves => (halves.2.reverse, halves.1.reverse))

def trimMatches (c : Char) (s : List Char) : List Char :=
  (s.dropWhile (fun x => x = c)).rdropWhile (fun x => x = c)

/-- The loop of `split_inclusive`: the piece being read, then the rest of the text. -/
def splitInclusiveFrom (sep : Char) (piece : List Char) : List Char → List (List Char)
  | [] => if piece.isEmpty then [] else [piece]
  | c :: cs =>
    if c = sep then (piece ++ [c]) :: splitInclusiveFrom sep [] cs
    else splitInclusiveFrom sep (piece ++ [c]) cs

/-- `split_inclusive`: the pieces keep their terminator, a trailing empty piece is not yielded. -/
def splitInclusive (sep : Char) (s : List Char) : List (List Char) := splitInclusiveFrom sep [] s

def hexDigit (n : Nat) : Char := Char.ofNat (if n < 10 then 48 + n else 87 + n)

/-- `hex::encode`. -/
def hexEncode (bytes : Foundation.Bytes) : String :=
  String.ofList (bytes.flatMap (fun b => [hexDigit (b.toNat / 16), hexDigit (b.toNat % 16)]))

example : hexEncode [0x0a, 0xf3] = "0af3" := by decide

def hexValue (c : Char) : Option Nat :=
  if 'a' ≤ c && c ≤ 'f' then some (c.toNat - 87)
  else if 'A' ≤ c && c ≤ 'F' then some (c.toNat - 55)
  else if '0' ≤ c && c ≤ '9' then some (c.toNat - 48)
  else none

/-- `hex::decode`, on characters. -/
def hexDecodeChars : List Char → Option Foundation.Bytes
  | [] => some []
  | [_] => none
  | high :: low :: rest => do
      let high ← hexValue high
      let low ← hexValue low
      let bytes ← hexDecodeChars rest
      some (UInt8.ofNat (16 * high + low) :: bytes)

/-- `hex::decode`: an even number of digits. -/
def hexDecode (text : String) : Option Foundation.Bytes := hexDecodeChars text.toList

theorem hexValue_hexDigit : ∀ {n : Nat}, n < 16 → hexValue (hexDigit n) = some n := by
  decide

/-- **What was encoded can be decoded.** -/
theorem hexDecode_hexEncode (bytes : Foundation.Bytes) : hexDecode (hexEncode bytes) = some bytes := by
  unfold hexDecode hexEncode
  rw [String.toList_ofList]
  induction bytes with
  | nil => rfl
  | cons b bytes ih =>
    have hhigh : b.toNat / 16 < 16 := by
      have := b.toNat_lt
      omega
    have hlow : b.toNat % 16 < 16 := Nat.mod_lt _ (by decide)
    have hbyte : UInt8.ofNat (16 * (b.toNat / 16) + b.toNat % 16) = b := by
      rw [Nat.div_add_mod, UInt8.ofNat_toNat]
    simp only [flatMap_cons, cons_append, nil_append, hexDecodeChars,
      hexValue_hexDigit hhigh, hexValue_hexDigit hlow, ih, Option.bind_eq_bind,
      Option.bind_some, hbyte]

variable {sep : Char} {s before after : List Char}

theorem splitOnce_eq_none (h : sep ∉ s) : splitOnce sep s = none := by
  have hdrop : s.dropWhile (fun c => c ≠ sep) = [] := by
    rw [dropWhile_eq_nil_iff]
    intro c hc
    simp only [ne_eq, decide_not, Bool.not_eq_eq_eq_not, Bool.not_true, decide_eq_false_iff_not]
    exact fun heq => h (heq ▸ hc)
  rw [splitOnce, hdrop]

theorem splitOnce_append (h : sep ∉ before) : splitOnce sep (before ++ sep :: after) = some (before, after) := by
  have hall : ∀ c ∈ before, decide (c ≠ sep) := fun c hc => by
    simp only [ne_eq, decide_not, Bool.not_eq_true', decide_eq_false_iff_not]
    exact fun heq => h (heq ▸ hc)
  unfold splitOnce
  rw [dropWhile_append_of_pos hall, takeWhile_append_of_pos hall]
  simp

theorem splitOnce_some (h : splitOnce sep s = some (before, after)) : s = before ++ sep :: after := by
  unfold splitOnce at h
  split at h
  next => cases h
  next c rest hdrop =>
    cases h
    have hc : c = sep := by
      have hhead := head?_dropWhile_not (fun c => decide (c ≠ sep)) s
      rw [hdrop] at hhead
      simpa using hhead
    subst hc
    rw [← hdrop, takeWhile_append_dropWhile]

theorem rsplitOnce_eq_none (h : sep ∉ s) : rsplitOnce sep s = none := by
  rw [rsplitOnce, splitOnce_eq_none (by simpa using h)]
  rfl

theorem rsplitOnce_some (h : rsplitOnce sep s = some (before, after)) : s = before ++ sep :: after := by
  obtain ⟨⟨first, second⟩, hsplit, heq⟩ := Option.map_eq_some_iff.mp h
  cases heq
  rw [← reverse_inj, splitOnce_some hsplit]
  simp

theorem not_mem_of_mem_splitOn (h : piece ∈ s.splitOn sep) : sep ∉ piece := by
  induction s generalizing piece with
  | nil =>
    rw [splitOn_nil, mem_singleton] at h
    rw [h]
    exact not_mem_nil
  | cons c s ih =>
    unfold List.splitOn at h ih
    rw [splitOnP_cons_eq_if_modifyHead] at h
    split at h
    next =>
      rcases mem_cons.mp h with rfl | h
      · exact not_mem_nil
      · exact ih h
    next hne =>
      cases hpieces : s.splitOnP (· == sep) with
      | nil => exact absurd hpieces (splitOnP_ne_nil _ _)
      | cons first rest =>
        rw [hpieces] at h ih
        rcases mem_cons.mp h with rfl | h
        · intro hmem
          rcases mem_cons.mp hmem with rfl | hmem
          · exact hne (by simp)
          · exact ih (.head _) hmem
        · exact ih (.tail _ h)

theorem trimMatches_trimMatches (c : Char) (s : List Char) :
    trimMatches c (trimMatches c s) = trimMatches c s := by
  -- the text after the left trim, and the part of it the right trim keeps
  have hpre : trimMatches c s <+: s.dropWhile (fun x => x = c) := rdropWhile_prefix _ _
  have hhead : (trimMatches c s).dropWhile (fun x => x = c) = trimMatches c s := by
    rw [dropWhile_eq_self_iff]
    intro hpos
    have hleft := dropWhile_eq_self_iff.mp
      (dropWhile_idempotent (l := s) (fun x => decide (x = c)))
      (Nat.lt_of_lt_of_le hpos hpre.length_le)
    rwa [List.IsPrefix.getElem hpre hpos]
  rw [trimMatches, hhead]
  exact rdropWhile_idempotent _ _

end KeyQuorum
