/-
  **THE NOTES OF A TRANSACTION** (`transfer.rs`, the `detail` column).

  A transaction keeps its lists of labels in one text,
  `reason=..;included=..;excluded=..;installed=..`, written by
  `format_detail`, changed by `replace_detail_list` and read back by
  `detail_list`.  Slot labels have no comma and no semicolon, so what is
  read is what was written.
-/
import KeyQuorum.Container
import KeyQuorum.Text

namespace KeyQuorum.Transfer

open List

/-! ## §1. Writing and reading. -/

/-- `values.join(",")`. -/
def joinLabels (values : List String) : List Char :=
  List.intercalate [','] (values.map String.toList)

/-- `key=value`. -/
def part (key : String) (value : List Char) : List Char := key.toList ++ '=' :: value

def formatDetail (reason : String) (included excluded installed : List String) : String :=
  String.ofList (List.intercalate [';'] [part "reason" reason.toList,
    part "included" (joinLabels included), part "excluded" (joinLabels excluded),
    part "installed" (joinLabels installed)])

def partList (key : String) (text : List Char) : Option (List String) :=
  match splitOnce '=' text with
  | some (found, value) =>
    if found = key.toList then
      some (if value.isEmpty then [] else (value.splitOn ',').map String.ofList)
    else none
  | none => none

def detailList (detail key : String) : List String :=
  ((detail.toList.splitOn ';').findSome? (partList key)).getD []

def replaceDetailList (detail key : String) (values : List String) : String :=
  String.ofList (List.intercalate [';']
    (((detail.toList.splitOn ';').filter fun text => !(part key []).isPrefixOf text)
      ++ [part key (joinLabels values)]))

example : detailList (formatDetail "prepared" ["M", "M.S"] [] []) "included" = ["M", "M.S"] := by
  decide

/-! ## §2. Labels that survive. -/

def Notable (label : String) : Prop := label ≠ "" ∧ ',' ∉ label.toList ∧ ';' ∉ label.toList

variable {label : String}

theorem notable_of_valid (h : validateSlotLabel label = .ok ()) : Notable label := by
  unfold validateSlotLabel at h
  split at h
  next => cases h
  next hvalid =>
    simp only [Bool.or_eq_true, Bool.not_eq_true', not_or, Bool.not_eq_false,
      all_eq_true, decide_eq_true_eq] at hvalid
    obtain ⟨⟨⟨hempty, -⟩, -⟩, hchars⟩ := hvalid
    refine ⟨fun heq => hempty (by rw [heq]; decide), fun hmem => ?_, fun hmem => ?_⟩
    · exact absurd (hchars ',' hmem) (by decide)
    · exact absurd (hchars ';' hmem) (by decide)

variable {values : List String} {text : List Char} {key other : String}

theorem not_mem_joinLabels (hc : c ≠ ',') (h : ∀ label ∈ values, c ∉ label.toList) :
    c ∉ joinLabels values := by
  unfold joinLabels
  induction values with
  | nil => simp
  | cons first rest ih =>
    have hrest := ih fun label hlabel => h label (mem_cons_of_mem first hlabel)
    have hfirst := h first (.head _)
    cases rest with
    | nil => simpa using hfirst
    | cons second rest =>
      rw [map_cons, map_cons, intercalate_cons_cons]
      simp only [mem_append, mem_singleton, not_or]
      exact ⟨⟨hfirst, hc⟩, hrest⟩

theorem mem_of_mem_splitOn (h : piece ∈ text.splitOn sep) (hc : c ∈ piece) : c ∈ text := by
  have hback : [sep].intercalate (text.splitOn sep) = text := intercalate_splitOn sep
  rw [← hback]
  clear hback
  generalize text.splitOn sep = pieces at h
  induction pieces with
  | nil => cases h
  | cons first rest ih =>
    cases rest with
    | nil =>
      rw [mem_singleton.mp h] at hc
      simpa using hc
    | cons second rest =>
      rw [intercalate_cons_cons]
      rcases mem_cons.mp h with rfl | h
      · simp [hc]
      · exact mem_append_right _ (ih h)

/-! ## §3. What is read is what was written. -/

theorem partList_part (hkey : '=' ∉ key.toList) (hvalues : ∀ label ∈ values, Notable label) :
    partList key (part key (joinLabels values)) = some values := by
  unfold partList
  rw [part, splitOnce_append hkey]
  simp only [if_true, Option.some.injEq]
  cases values with
  | nil => rfl
  | cons first rest =>
    have hsplit : (joinLabels (first :: rest)).splitOn ',' = (first :: rest).map String.toList := by
      refine splitOn_intercalate ',' ?_ (by simp)
      intro text htext
      obtain ⟨label, hlabel, rfl⟩ := mem_map.mp htext
      exact (hvalues label hlabel).2.1
    have hnonempty : (joinLabels (first :: rest)).isEmpty = false := by
      rw [isEmpty_eq_false_iff]
      intro hnil
      -- an empty text would split into one empty label
      rw [hnil, splitOn_nil, map_cons] at hsplit
      have hfirst : first.toList = [] := (List.cons.inj hsplit).1.symm
      exact (hvalues first (.head _)).1 (String.toList_eq_nil_iff.mp hfirst)
    rw [hnonempty, hsplit, map_map]
    simp

theorem partList_part_other (hkey : '=' ∉ key.toList) (hne : key ≠ other) (value : List Char) :
    partList other (part key value) = none := by
  unfold partList
  rw [part, splitOnce_append hkey]
  have hlist : key.toList ≠ other.toList := fun heq => hne (String.toList_inj.mp heq)
  simp [hlist]

theorem isPrefixOf_of_partList
    (h : partList key text = some values) : (part key []).isPrefixOf text := by
  unfold partList at h
  split at h
  next found value hsplit =>
    split at h
    next hfound =>
      rw [ isPrefixOf_iff_prefix, splitOnce_some hsplit, hfound]
      exact ⟨value, by simp [part]⟩
    next => cases h
  next => cases h

theorem partList_other_of_isPrefixOf (hkey : '=' ∉ key.toList) (hne : key ≠ other)
    (h : (part key []).isPrefixOf text) : partList other text = none := by
  rw [ isPrefixOf_iff_prefix] at h
  obtain ⟨value, rfl⟩ := h
  have hpart : part key [] ++ value = part key value := by simp [part]
  rw [hpart]
  exact partList_part_other hkey hne value

theorem findSome?_filter_of_none {α β : Type} {p : α → Bool} {f : α → Option β}
    (h : ∀ a, p a = false → f a = none) (l : List α) : (l.filter p).findSome? f = l.findSome? f := by
  induction l with
  | nil => rfl
  | cons a l ih =>
    cases hp : p a with
    | true => rw [filter_cons_of_pos hp, findSome?_cons, findSome?_cons, ih]
    | false =>
      rw [filter_cons_of_neg (by simp [hp]), findSome?_cons, h a hp, ih]

theorem not_mem_of_mem_detailList (h : label ∈ detailList detail key) : ';' ∉ label.toList := by
  unfold detailList at h
  cases hfound : (detail.toList.splitOn ';').findSome? (partList key) with
  | none =>
    rw [hfound] at h
    cases h
  | some values =>
    rw [hfound] at h
    obtain ⟨text, htext, hpart⟩ := exists_of_findSome?_eq_some hfound
    have hclean : ';' ∉ text := not_mem_of_mem_splitOn htext
    unfold partList at hpart
    split at hpart
    next found value hsplit =>
      split at hpart
      next =>
        rw [splitOnce_some hsplit] at hclean
        have hvalue : ';' ∉ value := fun hmem => hclean (by simp [hmem])
        cases hpart
        split at h
        next => cases h
        next =>
          obtain ⟨piece, hpiece, rfl⟩ := mem_map.mp h
          rw [String.toList_ofList]
          exact fun hmem => hvalue (mem_of_mem_splitOn hpiece hmem)
      next => cases hpart
    next => cases hpart

section Replace

variable {key other : String} {values : List String}

theorem splitOn_replaceDetailList (hkey : ';' ∉ key.toList)
    (hvalues : ∀ label ∈ values, ';' ∉ label.toList) (detail : String) :
    (replaceDetailList detail key values).toList.splitOn ';'
      = ((detail.toList.splitOn ';').filter fun text => !(part key []).isPrefixOf text)
        ++ [part key (joinLabels values)] := by
  unfold replaceDetailList
  rw [String.toList_ofList]
  refine splitOn_intercalate ';' ?_ (by simp)
  intro text htext
  rcases mem_append.mp htext with htext | htext
  · exact not_mem_of_mem_splitOn (mem_filter.mp htext).1
  · rw [mem_singleton.mp htext]
    simp [part, hkey, not_mem_joinLabels (by decide) hvalues]

variable (hkey : '=' ∉ key.toList) (hkey' : ';' ∉ key.toList)

include hkey hkey'

/-- **The list that was put in is the list that is read.** -/
theorem detailList_replaceDetailList (hvalues : ∀ label ∈ values, Notable label) (detail : String) :
    detailList (replaceDetailList detail key values) key = values := by
  unfold detailList
  rw [splitOn_replaceDetailList hkey' fun label hlabel => (hvalues label hlabel).2.2, findSome?_append]
  have hnone : ((detail.toList.splitOn ';').filter fun text => !(part key []).isPrefixOf text).findSome?
      (partList key) = none := by
    rw [findSome?_eq_none_iff]
    intro text htext
    cases hlist : partList key text with
    | none => rfl
    | some found =>
      have hkept := (mem_filter.mp htext).2
      rw [isPrefixOf_of_partList hlist] at hkept
      cases hkept
  rw [hnone]
  simp [partList_part hkey hvalues]

/-- **The other lists stay as they are.** -/
theorem detailList_replaceDetailList_other (hne : key ≠ other)
    (hvalues : ∀ label ∈ values, ';' ∉ label.toList) (detail : String) :
    detailList (replaceDetailList detail key values) other = detailList detail other := by
  unfold detailList
  rw [splitOn_replaceDetailList hkey' hvalues, findSome?_append]
  have hlast : [part key (joinLabels values)].findSome? (partList other) = none := by
    simp [partList_part_other hkey hne]
  rw [hlast, Option.or_none, findSome?_filter_of_none]
  intro text hdropped
  exact partList_other_of_isPrefixOf hkey hne (by simpa using hdropped)

end Replace

section Format

variable {reason : String} {included excluded installed : List String}

variable (hreason : ';' ∉ reason.toList) (hincluded : ∀ label ∈ included, Notable label)

include hreason hincluded

theorem splitOn_formatDetail (hexcluded : ∀ label ∈ excluded, Notable label)
    (hinstalled : ∀ label ∈ installed, Notable label) :
    (formatDetail reason included excluded installed).toList.splitOn ';'
      = [part "reason" reason.toList, part "included" (joinLabels included),
          part "excluded" (joinLabels excluded), part "installed" (joinLabels installed)] := by
  have hjoin : ∀ {values : List String}, (∀ label ∈ values, Notable label) → ';' ∉ joinLabels values :=
    fun h => not_mem_joinLabels (by decide) fun label hlabel => (h label hlabel).2.2
  unfold formatDetail
  rw [String.toList_ofList]
  refine splitOn_intercalate ';' ?_ (by simp)
  intro text htext
  simp only [mem_cons, not_mem_nil, or_false] at htext
  rcases htext with rfl | rfl | rfl | rfl
  · simp [part, hreason]
  · simp [part, hjoin hincluded]
  · simp [part, hjoin hexcluded]
  · simp [part, hjoin hinstalled]

theorem detailList_formatDetail_included :
    detailList (formatDetail reason included excluded installed) "included" = included := by
  have hjoin : ';' ∉ joinLabels included :=
    not_mem_joinLabels (by decide) fun label hlabel => (hincluded label hlabel).2.2
  unfold detailList formatDetail
  rw [String.toList_ofList, intercalate_cons_cons, append_assoc, singleton_append,
    splitOn_append_cons_self_of_not_mem (by simp [part, hreason]), intercalate_cons_cons,
    append_assoc, singleton_append,
    splitOn_append_cons_self_of_not_mem (by simp [part, hjoin])]
  simp [partList_part_other, partList_part _ hincluded]

theorem detailList_formatDetail_installed (hexcluded : ∀ label ∈ excluded, Notable label)
    (hinstalled : ∀ label ∈ installed, Notable label) :
    detailList (formatDetail reason included excluded installed) "installed" = installed := by
  unfold detailList
  rw [splitOn_formatDetail hreason hincluded hexcluded hinstalled]
  simp [partList_part_other, partList_part _ hinstalled]

end Format

end KeyQuorum.Transfer
