/-
  **THE GENERATED LABEL OF A REVISION** (`file_history/revision.rs`).

  `R<normalized-file-name>-<UTC timestamp>-<HCP label>`.  A stored label is
  checked without the file's current name: the name part must be non-empty
  and already normalized.  That check accepts every label the generator
  makes (`generatedLabel_consistent`) because normalization is idempotent
  (`normalizeName_normalizeName`).
-/
import KeyQuorum.Platform
import KeyQuorum.Text
import Mathlib.Data.List.Chain

namespace KeyQuorum

open List Foundation

/-! ## §1. Normalizing a file name. -/

/-- The name without its extension: cut at the last dot, unless that leaves nothing. -/
def stem (name : List Char) : List Char :=
  match rsplitOnce '.' name with
  | some (before, _) => if before.isEmpty then name else before
  | none => name

theorem stem_eq_self (h : '.' ∉ name) : stem name = name := by
  rw [stem, rsplitOnce_eq_none h]

variable [CharTable]

def normalizeStep (out : List Char) (c : Char) : List Char :=
  if CharTable.isAlphanumeric c then out ++ [c]
  else if (CharTable.isWhitespace c || c = '-' || c = '_') && out.getLast? ≠ some '-' then
    out ++ ['-']
  else out

/-- `normalize_name`, on characters. -/
def normalizeChars (name : List Char) : List Char :=
  let trimmed := trimMatches '-' ((stem name).foldl normalizeStep [])
  if trimmed.isEmpty then ['f', 'i', 'l', 'e'] else trimmed

def normalizeName (name : String) : String := String.ofList (normalizeChars name.toList)

/-! ## §2. Timestamps. -/

/-- `whole_seconds`: drop the fraction of a UTC instant. -/
def wholeSeconds (instant : String) : String :=
  match splitOnce '.' instant.toList, instant.toList.dropSuffix? ['Z'] with
  | some (before, _), some _ => String.ofList (before ++ ['Z'])
  | _, _ => instant

/-- `digits(s, n)`: exactly `n` ASCII digits. -/
def isDigits (s : List Char) (n : Nat) : Bool := s.length = n && s.all Char.isDigit

/-- `parse::<u32>` of a text already known to be a few ASCII digits. -/
def parseDigits (s : List Char) : Nat := s.foldl (fun n c => 10 * n + (c.toNat - '0'.toNat)) 0

def daysIn (year month : Nat) : Nat :=
  let leap := year % 4 = 0 ∧ (year % 100 ≠ 0 ∨ year % 400 = 0)
  if month ∈ [1, 3, 5, 7, 8, 10, 12] then 31
  else if month ∈ [4, 6, 9, 11] then 30
  else if month = 2 ∧ leap then 29
  else if month = 2 then 28
  else 0

def fractionOk : Option (List Char) → Bool
  | none => true
  | some f => !f.isEmpty && f.length ≤ 9 && f.all Char.isDigit

/-- The tail of `compact_utc`: shape and calendar checks on the parts, then the compact text. -/
def compactParts (date clock : List (List Char)) (fraction : Option (List Char)) :
    Except Error String :=
  match date, clock with
  | [y, mo, d], [h, mi, s] =>
    if isDigits y 4 && isDigits mo 2 && isDigits d 2 && isDigits h 2 && isDigits mi 2
        && isDigits s 2 && fractionOk fraction then
      if parseDigits y = 0 || parseDigits d = 0
          || parseDigits d > daysIn (parseDigits y) (parseDigits mo)
          || parseDigits h > 23 || parseDigits mi > 59 || parseDigits s > 59 then
        .error .invalidTrackedFile
      else
        .ok (String.ofList (y ++ mo ++ d ++ ['T'] ++ h ++ mi ++ s ++ (match fraction with
              | some f => '.' :: f
              | none => []) ++ ['Z']))
    else .error .invalidTrackedFile
  | _, _ => .error .invalidTrackedFile

/-- `compact_utc`: `2026-10-02T14:32:05.482Z` → `20261002T143205.482Z`. -/
def compactUtc (value : String) : Except Error String :=
  match splitOnce 'T' value.toList with
  | none => .error .invalidTrackedFile
  | some (date, time) =>
    match time.dropSuffix? ['Z'] with
    | none => .error .invalidTrackedFile
    | some time =>
      match splitOnce '.' time with
      | some (clock, fraction) =>
        compactParts (date.splitOn '-') (clock.splitOn ':') (some fraction)
      | none => compactParts (date.splitOn '-') (time.splitOn ':') none

/-! ## §3. The label and its check. -/

def generatedLabel (logicalName createdAtUtc hcpLabel : String) : Except Error String :=
  if hcpLabel.isEmpty then .error .invalidTrackedFile
  else do
    let stamp ← compactUtc createdAtUtc
    .ok ("R" ++ normalizeName logicalName ++ "-" ++ stamp ++ "-" ++ hcpLabel)

/-- `generated_label_is_consistent`, of a label, a timestamp and an HCP label. -/
def labelIsConsistent (label createdAtUtc hcpLabel : String) : Bool :=
  match compactUtc createdAtUtc with
  | .error _ => false
  | .ok stamp =>
    let suffix := "-" ++ stamp ++ "-" ++ hcpLabel
    !hcpLabel.isEmpty &&
      match label.toList.dropPrefix? ['R'] with
      | none => false
      | some rest =>
        match rest.dropSuffix? suffix.toList with
        | none => false
        | some name => !name.isEmpty && normalizeChars name = name

/-! ## §4. Normalization is idempotent. -/

structure Normal (name : List Char) : Prop where
  chars : ∀ c ∈ name, CharTable.isAlphanumeric c = true ∨ c = '-'
  single : name.IsChain (fun a b => ¬ (a = '-' ∧ b = '-'))

theorem not_alphanumeric_hyphen : CharTable.isAlphanumeric '-' = false := by
  rw [CharTable.isAlphanumeric_ascii _ (by decide)]
  decide

theorem not_alphanumeric_dot : CharTable.isAlphanumeric '.' = false := by
  rw [CharTable.isAlphanumeric_ascii _ (by decide)]
  decide

theorem normal_nil : Normal [] := ⟨by simp, isChain_nil⟩

theorem Normal.concat (h : Normal out) (hc : CharTable.isAlphanumeric c ∨ c = '-')
    (hlast : c = '-' → out.getLast? ≠ some '-') : Normal (out ++ [c]) where
  chars := by
    intro x hx
    rcases mem_append.mp hx with hx | hx
    · exact h.chars x hx
    · rwa [mem_singleton.mp hx]
  single := by
    refine isChain_append.mpr ⟨h.single, isChain_singleton _, ?_⟩
    rintro x hx y hy ⟨rfl, rfl⟩
    simp only [head?_cons, Option.mem_def, Option.some.injEq] at hx hy
    exact hlast hy hx

theorem normalizeStep_normal (h : Normal out) (c : Char) :
    Normal (normalizeStep out c) := by
  unfold normalizeStep
  split
  next halnum =>
    refine h.concat (.inl halnum) ?_
    rintro rfl
    rw [not_alphanumeric_hyphen] at halnum
    cases halnum
  next =>
    split
    next hsep =>
      simp only [Bool.and_eq_true, decide_eq_true_eq] at hsep
      exact h.concat (.inr rfl) (fun _ => hsep.2)
    next => exact h

theorem foldl_normalizeStep_normal (cs : List Char) (h : Normal out) :
    Normal (cs.foldl normalizeStep out) := by
  induction cs generalizing out with
  | nil => exact h
  | cons c cs ih => exact ih (normalizeStep_normal h c)

theorem foldl_normalizeStep_eq (h : Normal (out ++ cs)) : cs.foldl normalizeStep out = out ++ cs := by
  induction cs generalizing out with
  | nil => simp
  | cons c cs ih =>
    rw [append_cons] at h ⊢
    have hstep : normalizeStep out c = out ++ [c] := by
      unfold normalizeStep
      rcases h.chars c (by simp) with halnum | rfl
      · rw [if_pos halnum]
      · have hlast : out.getLast? ≠ some '-' := by
          intro hlast
          have hpair := (isChain_append.mp
            (isChain_append.mp h.single).1).2.2 '-' (by simpa using hlast) '-' (by simp)
          exact hpair ⟨rfl, rfl⟩
        simp [not_alphanumeric_hyphen, hlast]
    rw [foldl_cons, hstep]
    exact ih h

theorem trimMatches_normal (h : Normal name) : Normal (trimMatches '-' name) := by
  have hinfix : ∃ pre post, name = pre ++ (trimMatches '-' name ++ post) := by
    obtain ⟨pre, hpre⟩ := dropWhile_suffix (l := name) (fun x => decide (x = '-'))
    obtain ⟨post, hpost⟩ := rdropWhile_prefix (fun x => decide (x = '-'))
      (name.dropWhile (fun x => decide (x = '-')))
    exact ⟨pre, post, by rw [trimMatches, hpost, hpre]⟩
  obtain ⟨pre, post, heq⟩ := hinfix
  rw [heq] at h
  exact ⟨fun c hc => h.chars c (by simp [hc]), h.single.right_of_append.left_of_append⟩

theorem normalizeChars_spec (name : List Char) :
    Normal (normalizeChars name) ∧ trimMatches '-' (normalizeChars name) = normalizeChars name ∧
      normalizeChars name ≠ [] := by
  have hnormal := trimMatches_normal (foldl_normalizeStep_normal (stem name) normal_nil)
  unfold normalizeChars
  dsimp only
  split
  next =>
    refine ⟨⟨?_, by decide⟩, by decide, by decide⟩
    intro c hc
    left
    simp only [mem_cons, not_mem_nil, or_false] at hc
    rcases hc with rfl | rfl | rfl | rfl <;> rw [CharTable.isAlphanumeric_ascii _ (by decide)] <;>
      decide
  next hne => exact ⟨hnormal, trimMatches_trimMatches _ _, by simpa using hne⟩

/-- **Normalizing twice is normalizing once.** -/
theorem normalizeChars_normalizeChars (name : List Char) :
    normalizeChars (normalizeChars name) = normalizeChars name := by
  obtain ⟨hnormal, htrim, hne⟩ := normalizeChars_spec name
  have hdot : '.' ∉ normalizeChars name := by
    intro hmem
    rcases hnormal.chars '.' hmem with h | h
    · rw [not_alphanumeric_dot] at h
      cases h
    · exact absurd h (by decide)
  have hloop : (normalizeChars name).foldl normalizeStep [] = normalizeChars name :=
    foldl_normalizeStep_eq (by simpa using hnormal)
  rw [normalizeChars, stem_eq_self hdot, hloop, htrim, if_neg (by simpa using hne)]

/-- **The check accepts every generated label.** -/
theorem generatedLabel_consistent (h : generatedLabel name createdAt hcp = .ok label) :
    labelIsConsistent label createdAt hcp := by
  obtain ⟨hhcp, h⟩ := else_ok h
  obtain ⟨stamp, hstamp, h⟩ := try_ok h
  cases h
  have hpre : ("R" ++ normalizeName name ++ "-" ++ stamp ++ "-" ++ hcp).toList.dropPrefix? ['R']
      = some (normalizeChars name.toList ++ ("-" ++ stamp ++ "-" ++ hcp).toList) :=
    dropPrefix?_eq_some_iff.mpr ⟨['R'], by simp [normalizeName], by simp⟩
  have hsuffix : (normalizeChars name.toList ++ ("-" ++ stamp ++ "-" ++ hcp).toList).dropSuffix?
      ("-" ++ stamp ++ "-" ++ hcp).toList = some (normalizeChars name.toList) :=
    dropSuffix?_eq_some_iff.mpr ⟨_, rfl, by simp⟩
  have hne := (normalizeChars_spec name.toList).2.2
  simp only [labelIsConsistent, hstamp, hpre, hsuffix, normalizeChars_normalizeChars]
  simp [hhcp, hne]

end KeyQuorum
