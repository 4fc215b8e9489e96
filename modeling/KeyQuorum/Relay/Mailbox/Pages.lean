/-
  **PAGES READ THE WHOLE MAILBOX.**

  A reader follows `next_after` from page to page, each page with a limit of
  its own.  A page ends at its row limit, at its byte budget or with the
  mailbox, and `next_after` is set exactly when a row was left behind; the
  next page starts with that row.  Both mailboxes decide a page this way.
-/
import KeyQuorum.Relay.Mailbox

namespace KeyQuorum.Relay

open List Foundation

/-! ## §1. One page. -/

namespace PageBuilder

/-- The builder counts the bytes it has kept, and keeps a second row only within the budget. -/
structure Within (b : PageBuilder) : Prop where
  bytes : b.bytes = (b.kept.map StoredEnvelope.len).sum
  budget : b.kept.length ≤ 1 ∨ b.bytes ≤ maxInboxPageBytes

variable {b : PageBuilder}

theorem Within.offer (h : b.Within) (item : StoredEnvelope) : (b.offer item).2.Within := by
  unfold PageBuilder.offer
  split
  next => exact ⟨h.bytes, h.budget⟩
  next hfits =>
    refine ⟨?_, ?_⟩
    · show b.bytes + item.len = ((b.kept ++ [item]).map StoredEnvelope.len).sum
      simp [h.bytes]
    · show (b.kept ++ [item]).length ≤ 1 ∨ b.bytes + item.len ≤ maxInboxPageBytes
      by_cases hfirst : b.kept = []
      · left
        simp [hfirst]
      · right
        simp only [Bool.or_eq_true, Bool.and_eq_true, not_or, decide_eq_true_eq, Bool.not_eq_true',
          isEmpty_eq_false_iff, not_and] at hfits
        exact Nat.le_of_not_lt (hfits.2 hfirst)

/-- **The budget is kept beyond the first row.** -/
theorem Within.offerAll (h : b.Within) (items : List StoredEnvelope) :
    (PageBuilder.offerAll items b).Within := by
  induction items generalizing b with
  | nil => exact h
  | cons item rest ih =>
    have hoffer := h.offer item
    unfold PageBuilder.offerAll
    split
    next b' hkept =>
      rw [hkept] at hoffer
      exact ih hoffer
    next b' hrefused =>
      rw [hrefused] at hoffer
      exact hoffer

end PageBuilder

structure Cut (size : Nat) (left : List StoredEnvelope) (page : MailboxPage) : Prop where
  /-- An empty page means that nothing is left. -/
  nonempty : page.envelopes = [] → left = []
  /-- The row limit. -/
  rows : page.envelopes.length ≤ size
  /-- The byte budget, beyond the first letter. -/
  budget : page.envelopes.length ≤ 1 ∨ (page.envelopes.map StoredEnvelope.len).sum ≤ maxInboxPageBytes

theorem readPage_cut (hsize : 0 < size) (items : List StoredEnvelope) :
    Cut size items (readPage size items) := by
  have hwithin : (PageBuilder.offerAll (items.take (size + 1)) (.new size)).Within :=
    PageBuilder.Within.offerAll (b := .new size) ⟨rfl, .inl (Nat.zero_le 1)⟩ _
  obtain ⟨-, -, hlen, -⟩ :=
    PageBuilder.offerAll_ok (items.take (size + 1)) (.new size) rfl hsize (Nat.zero_le _)
  refine ⟨fun hempty => ?_, hlen, ?_⟩
  · obtain ⟨n, hkept, hend⟩ := readPage_ok hsize items
    rw [hkept] at hempty
    rcases hend with ⟨-, hall⟩ | ⟨last, hlast, -⟩
    · rw [take_of_length_le hall] at hempty
      exact hempty
    · rw [hempty] at hlast
      cases hlast
  · have hbudget := hwithin.budget
    rw [hwithin.bytes] at hbudget
    exact hbudget

namespace Mailbox

/-! ## §2. What a page leaves. -/

theorem filter_after {items : List MailRow} (hordered : items.Pairwise fun a b => a.id < b.id)
    (hlast : (items.take k).getLast? = some last) :
    items.filter (fun row => last.id < row.id) = items.drop k := by
  have hsplit := hordered
  rw [← take_append_drop k items] at hsplit
  obtain ⟨hfront, -, hacross⟩ := pairwise_append.mp hsplit
  have hmem : last ∈ items.take k := mem_of_getLast? hlast
  have hbefore : (items.take k).filter (fun row => last.id < row.id) = [] := by
    refine filter_eq_nil_iff.mpr fun row hrow => ?_
    obtain ⟨before, hbefore⟩ := getLast?_eq_some_iff.mp hlast
    rw [hbefore] at hrow hfront
    rcases mem_append.mp hrow with hin | hin
    · have hlt := (pairwise_append.mp hfront).2.2 row hin last (.head _)
      simp [Nat.le_of_lt hlt]
    · simp [mem_singleton.mp hin]
  have hafter : (items.drop k).filter (fun row => last.id < row.id) = items.drop k :=
    filter_eq_self.mpr fun row hrow => decide_eq_true (hacross last hmem row hrow)
  calc items.filter (fun row => last.id < row.id)
      = (items.take k ++ items.drop k).filter (fun row => last.id < row.id) := by rw [take_append_drop]
    _ = items.drop k := by rw [filter_append, hbefore, hafter, nil_append]

variable {now : Int} {fingerprint : String} {after : Int} {m : Mailbox} {table : MailTable}
  {page : MailboxPage}

theorem remaining_ordered :
    (m.remaining now fingerprint after).Pairwise fun a b => a.id < b.id :=
  ((m.purgeExpired now).ordered.filter _).imp fun h => h.1

theorem purgeExpired_again (now : Int) (m : Mailbox) :
    ((m.purgeExpired now).purgeExpired now).rows = (m.purgeExpired now).rows := by
  refine filter_eq_self.mpr fun row hrow => ?_
  simp [(mem_purgeExpired.mp hrow).2]

theorem remaining_filter {n : Nat} (hn : after ≤ n) :
    (m.purgeExpired now).remaining now fingerprint n
      = (m.remaining now fingerprint after).filter (fun row => n < row.id) := by
  unfold remaining
  rw [purgeExpired_again, filter_filter]
  refine filter_congr fun row _ => ?_
  rw [Bool.eq_iff_iff]
  simp only [readable_iff, Bool.and_eq_true, decide_eq_true_eq, Int.ofNat_lt]
  constructor
  · intro ⟨hfp, hlater, hready, hlive⟩
    exact ⟨hlater, hfp, Int.lt_of_le_of_lt hn (Int.ofNat_lt.mpr hlater), hready, hlive⟩
  · intro ⟨hlater, hfp, _, hready, hlive⟩
    exact ⟨hfp, hlater, hready, hlive⟩

/-- **A page leaves the rows after its last one.** -/
theorem remaining_next (hsize : 0 < size)
    (hpage : page = readPage size ((m.remaining now fingerprint after).map (MailRow.entry table))) :
    (page.nextAfter = none ∧ page.envelopes = (m.remaining now fingerprint after).map (MailRow.entry table))
      ∨ ∃ n k, page.nextAfter = some n ∧ k < (m.remaining now fingerprint after).length
        ∧ page.envelopes = ((m.remaining now fingerprint after).take k).map (MailRow.entry table)
        ∧ (m.purgeExpired now).remaining now fingerprint n = (m.remaining now fingerprint after).drop k := by
  obtain ⟨k, hkept, hend⟩ :=
    readPage_ok hsize ((m.remaining now fingerprint after).map (MailRow.entry table))
  rw [← hpage] at hkept hend
  rcases hend with ⟨hnone, hall⟩ | ⟨last, -, hnext, hlast, hbehind⟩
  · left
    rw [take_of_length_le hall] at hkept
    exact ⟨hnone, hkept⟩
  · right
    rw [← map_take] at hkept
    rw [← map_take, getLast?_map] at hlast
    obtain ⟨row, hrow, rfl⟩ := Option.map_eq_some_iff.mp hlast
    have hin : row ∈ m.remaining now fingerprint after := mem_of_mem_take (mem_of_getLast? hrow)
    have hlater : after < row.id := (readable_iff.mp (mem_remaining.mp hin).2).2.1
    refine ⟨row.id, k, hnext, ?_, hkept, ?_⟩
    · rwa [length_map] at hbehind
    · rw [remaining_filter (Int.le_of_lt hlater)]
      exact filter_after remaining_ordered hrow

/-! ## §3. All pages. -/

/-- Follow `next_after` until there is none; every page is asked for with a limit of its own. -/
def pages (table : MailTable) (now : Int) (fingerprint : String) :
    Nat → (Nat → Option Int) → Option Int → Mailbox → Except Error (List MailboxPage)
  | 0, _, _, _ => .error .relayRequest
  | fuel + 1, limits, after, m =>
    match m.listAfter table now fingerprint after (limits 0) with
    | .error e => .error e
    | .ok (page, m') =>
      match page.nextAfter with
      | none => .ok [page]
      | some n => (pages table now fingerprint fuel (fun i => limits (i + 1)) (some n) m').map (page :: ·)

/-- The pages of a reader: together the rows that were left, each cut as its limit and the budget allow. -/
structure Reads (sizes : Nat → Nat) (left : List StoredEnvelope) (pages : List MailboxPage) : Prop where
  all : pages.flatMap MailboxPage.envelopes = left
  each : ∀ i page, pages[i]? = some page → Cut (sizes i) left page

theorem Reads.cons {left : List StoredEnvelope} {pages : List MailboxPage}
    (hpage : Cut (sizes 0) left page) (hleft : page.envelopes ++ rest = left) (hrest : rest ≠ [])
    (h : Reads (fun i => sizes (i + 1)) rest pages) : Reads sizes left (page :: pages) := by
  refine ⟨?_, fun i other hother => ?_⟩
  · rw [flatMap_cons, h.all, hleft]
  · cases i with
    | zero =>
      cases hother
      exact hpage
    | succ i =>
      have hcut := h.each i other hother
      exact ⟨fun hempty => absurd (hcut.nonempty hempty) hrest, hcut.rows, hcut.budget⟩

theorem pages_reads {table : MailTable} {now : Int} {fingerprint : String} {limits : Nat → Option Int}
    {sizes : Nat → Nat} (hallowed : ∀ i, pageSize (limits i) = .ok (sizes i)) {after : Option Int}
    {m : Mailbox}
    {fuel : Nat} (hfuel : (m.remaining now fingerprint (after.getD 0)).length < fuel) :
    ∃ read, pages table now fingerprint fuel limits after m = .ok read
      ∧ Reads sizes ((m.remaining now fingerprint (after.getD 0)).map (MailRow.entry table)) read := by
  -- by induction on the fuel: every page that names a next one leaves fewer rows
  induction fuel generalizing limits sizes after m with
  | zero => exact absurd hfuel (Nat.not_lt_zero _)
  | succ fuel ih =>
    have hpos : 0 < sizes 0 := pageSize_pos (hallowed 0)
    generalize hpage : readPage (sizes 0)
      ((m.remaining now fingerprint (after.getD 0)).map (MailRow.entry table)) = page
    have hlist : m.listAfter table now fingerprint after (limits 0) = .ok (page, m.purgeExpired now) := by
      unfold listAfter
      rw [hallowed 0, ← hpage]
      rfl
    have hcut := readPage_cut hpos ((m.remaining now fingerprint (after.getD 0)).map (MailRow.entry table))
    rw [hpage] at hcut
    unfold pages
    rw [hlist]
    dsimp only
    rcases remaining_next hpos hpage.symm with ⟨hnone, hall⟩ | ⟨n, k, hnext, hbehind, hkept, hleft⟩
    · rw [hnone]
      refine ⟨[page], rfl, ?_, fun i other hother => ?_⟩
      · rw [flatMap_singleton, hall]
      · obtain ⟨rfl, rfl⟩ : i = 0 ∧ page = other := by
          cases i with
          | zero => exact ⟨rfl, Option.some.inj hother⟩
          | succ i => exact nomatch hother
        exact hcut
    · rw [hnext]
      have hk : 0 < k := by
        rcases Nat.eq_zero_or_pos k with rfl | hk
        · have hnothing := hcut.nonempty hkept
          rw [map_eq_nil_iff] at hnothing
          rw [hnothing] at hbehind
          exact absurd hbehind (Nat.not_lt_zero _)
        · exact hk
      obtain ⟨read, hread, hreads⟩ := @ih (fun i => limits (i + 1)) (fun i => sizes (i + 1))
        (fun i => hallowed (i + 1)) (some n) (m.purgeExpired now) (by
          rw [Option.getD_some, hleft, length_drop]
          omega)
      rw [Option.getD_some, hleft] at hreads
      refine ⟨page :: read, ?_, .cons hcut ?_ ?_ hreads⟩
      · dsimp only
        rw [hread]
        rfl
      · rw [hkept, ← map_append, take_append_drop]
      · intro hnil
        rw [map_eq_nil_iff, drop_eq_nil_iff] at hnil
        omega

/-- **Pulling pages reads the whole mailbox.**  For either mailbox, any starting cursor and any allowed limits,
following `next_after` to its end returns exactly the ready, unexpired letters of the fingerprint after the
cursor, each once and in the order of ids; a page is empty only when nothing is left, and within its row limit
and, beyond its first letter, the byte budget. -/
theorem pages_read_everything (table : MailTable) (now : Int) (fingerprint : String) (limits : Nat → Option Int)
    (sizes : Nat → Nat) (hallowed : ∀ i, pageSize (limits i) = .ok (sizes i)) (after : Option Int)
    (m : Mailbox)
    (fuel : Nat) (hfuel : m.rows.length < fuel) :
    ∃ read, pages table now fingerprint fuel limits after m = .ok read
      ∧ Reads sizes ((m.rows.filter (readable now fingerprint (after.getD 0))).map (MailRow.entry table)) read
      ∧ (read.flatMap MailboxPage.envelopes).Pairwise fun a b => a.id < b.id := by
  have hrows : m.remaining now fingerprint (after.getD 0)
      = m.rows.filter (readable now fingerprint (after.getD 0)) := by
    unfold remaining purgeExpired Serial.delete
    rw [filter_filter]
    refine filter_congr fun row _ => ?_
    rw [Bool.eq_iff_iff, Bool.and_eq_true, readable_iff]
    constructor
    · exact fun h => h.1
    · exact fun h => ⟨h, by simp [h.2.2.2]⟩
  have hfew : (m.remaining now fingerprint (after.getD 0)).length < fuel := by
    rw [hrows]
    exact Nat.lt_of_le_of_lt (length_filter_le _ _) hfuel
  obtain ⟨read, hread, hreads⟩ := @pages_reads table now fingerprint limits sizes hallowed after m fuel hfew
  refine ⟨read, hread, hrows ▸ hreads, ?_⟩
  rw [hreads.all]
  exact pairwise_map.mpr remaining_ordered

/-- A whole pull, every page with one limit. -/
def pull (table : MailTable) (now : Int) (fingerprint : String) (limit : Option Int) (fuel : Nat)
    (after : Option Int) (m : Mailbox) : Except Error (List StoredEnvelope) :=
  (pages table now fingerprint fuel (fun _ => limit) after m).map (List.flatMap MailboxPage.envelopes)

/-- **A pull lists every readable letter, and nothing else.** -/
theorem pull_ok {limit after : Option Int} {fuel size : Nat} (hsize : pageSize limit = .ok size)
    (hfuel : (m.remaining now fingerprint (after.getD 0)).length < fuel) :
    ∃ letters, pull table now fingerprint limit fuel after m = .ok letters
      ∧ ∀ item, item ∈ letters ↔ ∃ row ∈ m.rows, readable now fingerprint (after.getD 0) row
        ∧ row.entry table = item := by
  obtain ⟨read, hread, hreads⟩ := @pages_reads table now fingerprint _ _ (fun _ => hsize) after m fuel hfuel
  refine ⟨read.flatMap MailboxPage.envelopes, ?_, fun item => ?_⟩
  · rw [pull, hread]
    rfl
  · rw [hreads.all, mem_map]
    constructor
    · intro ⟨row, hrow, hentry⟩
      exact ⟨row, (mem_remaining.mp hrow).1, (mem_remaining.mp hrow).2, hentry⟩
    · intro ⟨row, hrow, hreadable, hentry⟩
      exact ⟨row, mem_remaining.mpr ⟨hrow, hreadable⟩, hentry⟩

/-! ## §4. A mailbox read in pages. -/

namespace Sample

/-- Three letters to one key, the second of them waiting for its object, and one to another key. -/
def filled : Mailbox :=
  let file (address : String) (n : Nat) (expiresAt : Option Int) (m : Mailbox) :=
    (m.file .inbox 0 (address, .ofNat 32 n) (List.replicate n 7) expiresAt (some 50)).2
  file "a" 9 none (file "b" 8 none (file "a" 60 none (file "a" 7 (some 20) .empty)))

/-- The reader alternates between the smallest page and the default one. -/
def limits (i : Nat) : Option Int := if i % 2 = 0 then some 1 else none

def sizes (i : Nat) : Nat := if i % 2 = 0 then 1 else defaultInboxPage

theorem filled_read :
    ((pages .inbox 10 "a" 5 limits (some (-3)) filled).toOption.map
        (List.map fun page => page.envelopes.map StoredEnvelope.id)) = some [[1], [4]]
      ∧ ∃ read, pages .inbox 10 "a" 5 limits (some (-3)) filled = .ok read
        ∧ Reads sizes ((filled.rows.filter (readable 10 "a" (-3))).map (MailRow.entry .inbox)) read
        ∧ (read.flatMap MailboxPage.envelopes).Pairwise fun a b => a.id < b.id := by
  have hallowed : ∀ i, pageSize (limits i) = .ok (sizes i) := by
    intro i
    unfold limits sizes
    split
    next => rfl
    next => rfl
  exact ⟨by decide +kernel,
    pages_read_everything .inbox 10 "a" limits sizes hallowed (some (-3)) filled 5 (by decide +kernel)⟩

end Sample

end Mailbox

end KeyQuorum.Relay
