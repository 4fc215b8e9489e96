/-
  **THE RELAY'S MAILBOX** (`relay/mailbox.rs`, `relay/blob.rs`).

  A letter is filed under its recipient's fingerprint and its hash, so a
  repeat of a letter finds the row of the first one.  A large letter is held
  in object storage: its row keeps the outer header and is not ready until
  the object is stored.  A pull reads the ready, unexpired letters after a
  number, in pages.
-/
import KeyQuorum.Foundation.Serial
import KeyQuorum.Relay.ApiKey

namespace KeyQuorum.Relay

open List Foundation

/-! ## §1. Rows. -/

/-- `MailTable`: bridge letters and device letters. -/
inductive MailTable where
  | inbox
  | devices
  deriving DecidableEq, Repr

/-- `BlobRef`: the object a letter is stored under, and its length. -/
structure BlobRef where
  table : MailTable
  hash : Digest
  len : Nat
  deriving DecidableEq, Repr

/-- `blob_len` and `blob_ready`: a letter in its row, or one held in object storage. -/
inductive Keeping where
  | inRow
  | held (len : Nat) (ready : Bool)
  deriving DecidableEq, Repr

/-- `blob_ready = 1`. -/
def Keeping.ready : Keeping → Bool
  | .inRow => true
  | .held _ ready => ready

/-- `blob_len IS NOT NULL AND blob_ready = 0`. -/
def Keeping.pending (keeping : Keeping) : Bool := !keeping.ready

/-- A row of `mailbox` or `device_mailbox`.  Times are seconds. -/
structure MailRow where
  id : Nat
  recipientFingerprint : String
  bytes : Bytes
  contentHash : Digest
  createdAt : Int
  expiresAt : Option Int
  keeping : Keeping
  deriving DecidableEq, Repr

/-- `UNIQUE (recipient_fingerprint, content_hash)`. -/
def MailRow.address (row : MailRow) : String × Digest := (row.recipientFingerprint, row.contentHash)

/-- `ref_from`. -/
def MailRow.blob (table : MailTable) (row : MailRow) : Option BlobRef :=
  match row.keeping with
  | .inRow => none
  | .held len _ => some ⟨table, row.contentHash, len⟩

/-- The rows of `mailbox` or `device_mailbox`. -/
abbrev Mailbox := Serial MailRow (String × Digest) MailRow.id MailRow.address

structure StoredEnvelope where
  id : Nat
  recipientFingerprint : String
  bytes : Bytes
  blob : Option BlobRef
  deriving DecidableEq, Repr

def MailRow.entry (table : MailTable) (row : MailRow) : StoredEnvelope :=
  ⟨row.id, row.recipientFingerprint, row.bytes, row.blob table⟩

/-- The length of a letter: that of its bytes, or of the object it is held in. -/
def StoredEnvelope.len (item : StoredEnvelope) : Nat := (item.blob.map BlobRef.len).getD item.bytes.length

/-- `Stored`: what was done with a letter. -/
structure Stored where
  id : Nat
  recipientFingerprint : String
  duplicate : Bool
  blob : Option BlobRef
  deriving DecidableEq, Repr

/-! ## §2. Storing a letter. -/

def headerLen : Nat := 42

def headerOf (letter : Bytes) : Bytes := letter.take headerLen

def isHeld (letter : Bytes) (holdFrom : Option Nat) : Bool := holdFrom.any fun threshold => threshold ≤ letter.length

def newRow (id : Nat) (now : Int) (address : String × Digest) (letter : Bytes) (expiresAt : Option Int)
    (holdFrom : Option Nat) : MailRow :=
  if isHeld letter holdFrom then
    ⟨id, address.1, headerOf letter, address.2, now, expiresAt, .held letter.length false⟩
  else ⟨id, address.1, letter, address.2, now, expiresAt, .inRow⟩

namespace Mailbox

/-- The part `mailbox::store_until_held` and `device_mail::store_held` share: file a letter unless its row
is there, and ask for the bytes of a letter whose object is not stored. -/
def file (table : MailTable) (now : Int) (address : String × Digest) (letter : Bytes) (expiresAt : Option Int)
    (holdFrom : Option Nat) (m : Mailbox) : Stored × Mailbox :=
  match m.find? address with
  | none =>
    let row := newRow m.next now address letter expiresAt holdFrom
    (⟨row.id, address.1, false, row.blob table⟩, m.insert row)
  | some row =>
    (⟨row.id, address.1, !row.keeping.pending, if row.keeping.pending then row.blob table else none⟩, m)

def purgeExpired (now : Int) (m : Mailbox) : Mailbox := m.delete fun row => !unexpired now row.expiresAt

def isDeviceWorkflowKind (kind : UInt8) : Bool := 9 ≤ kind && kind ≤ 12

section Routing

variable [Crypto]

/-- `routing_of`: the recipient's fingerprint and the hash; device letters are refused. -/
def routingOf (envelope : Bytes) : Except Error (String × Digest) := do
  let (kind, recipient, _) ← Letter.parseOuter envelope
  if isDeviceWorkflowKind kind then .error .invalidBridgePackage
  else .ok (Store.fingerprint recipient.bytes, sha256 envelope)

def storeUntilHeld (now : Int) (envelope : Bytes) (expiresAt : Option Int) (holdFrom : Option Nat) (m : Mailbox) :
    Except Error (Stored × Mailbox) := do
  let address ← routingOf envelope
  .ok (m.file .inbox now address envelope expiresAt holdFrom)

/-- `require_future_expires_utc`, for an expiry that is given. -/
def requireFuture (now : Int) (expiresAt : Option Int) : Except Error Unit :=
  if unexpired now expiresAt then .ok () else .error .expiresAtInPast

/-- `inbox_push` of the store, its trees apart. -/
def inboxPush (now : Int) (envelope : Bytes) (expiresAt : Option Int) (holdFrom : Option Nat) (m : Mailbox) :
    Except Error (Stored × Mailbox) := do
  requireFuture now expiresAt
  m.storeUntilHeld now envelope expiresAt holdFrom

end Routing

/-! ## §3. The second step of a held letter. -/

def madeReady (row : MailRow) : MailRow :=
  match row.keeping with
  | .held len _ => { row with keeping := .held len true }
  | .inRow => row

theorem madeReady_same (row : MailRow) :
    (madeReady row).id = row.id ∧ (madeReady row).address = row.address := by
  unfold madeReady
  split
  next => exact ⟨rfl, rfl⟩
  next => exact ⟨rfl, rfl⟩

def waits (id : Nat) (row : MailRow) : Bool := row.id = id && row.keeping.pending

def readied (id : Nat) (row : MailRow) : MailRow := if waits id row then madeReady row else row

theorem readied_same (id : Nat) (row : MailRow) :
    (readied id row).id = row.id ∧ (readied id row).address = row.address := by
  unfold readied
  split
  next => exact madeReady_same row
  next => exact ⟨rfl, rfl⟩

/-- `mark_ready`: `true` when a row waited. -/
def markReady (id : Nat) (m : Mailbox) : Bool × Mailbox :=
  (m.rows.any (waits id), m.update (readied id) (readied_same id))

/-- `abort`: a row that waits is dropped. -/
def abort (id : Nat) (m : Mailbox) : Bool × Mailbox := (m.rows.any (waits id), m.delete (waits id))

/-- `drop_stale_pending`: rows that have waited too long. -/
def dropStalePending (now : Int) (minutes : Int) (m : Mailbox) : Mailbox :=
  m.delete fun row => row.keeping.pending && decide (row.createdAt ≤ now - 60 * max 1 (min minutes (7 * 24 * 60)))

end Mailbox

/-! ## §4. Pages. -/

def defaultInboxPage : Nat := 100

def maxInboxPage : Nat := 500

def maxInboxPageBytes : Nat := 16 * 1024 * 1024

def pageSize (limit : Option Int) : Except Error Nat :=
  match limit with
  | none => .ok defaultInboxPage
  | some n => if 1 ≤ n && n ≤ (maxInboxPage : Int) then .ok n.toNat else .error .invalidInboxPage

structure PageBuilder where
  kept : List StoredEnvelope
  bytes : Nat
  page : Nat
  more : Bool
  deriving DecidableEq, Repr

structure MailboxPage where
  envelopes : List StoredEnvelope
  nextAfter : Option Nat
  deriving DecidableEq, Repr

namespace PageBuilder

def new (page : Nat) : PageBuilder := ⟨[], 0, page, false⟩

/-- `offer`: `false` when the page is decided. -/
def offer (b : PageBuilder) (item : StoredEnvelope) : Bool × PageBuilder :=
  if b.page ≤ b.kept.length || (!b.kept.isEmpty && decide (maxInboxPageBytes < b.bytes + item.len)) then
    (false, { b with more := true })
  else (true, { b with bytes := b.bytes + item.len, kept := b.kept ++ [item] })

def offerAll : List StoredEnvelope → PageBuilder → PageBuilder
  | [], b => b
  | item :: rest, b =>
    match b.offer item with
    | (true, b') => offerAll rest b'
    | (false, b') => b'

def finish (b : PageBuilder) : MailboxPage :=
  ⟨b.kept, if b.more then b.kept.getLast?.map StoredEnvelope.id else none⟩

end PageBuilder

/-- `read_page`: the statement fetches one row more than the page. -/
def readPage (page : Nat) (items : List StoredEnvelope) : MailboxPage :=
  (PageBuilder.offerAll (items.take (page + 1)) (.new page)).finish

namespace PageBuilder

/-- The builder keeps the first rows, at most a page of them; it stops short only after it has kept one. -/
theorem offerAll_ok (items : List StoredEnvelope) (b : PageBuilder) (hmore : b.more = false)
    (hpage : 0 < b.page) (hfits : b.kept.length ≤ b.page) :
    ∃ n, (offerAll items b).kept = b.kept ++ items.take n ∧ (offerAll items b).kept.length ≤ b.page
      ∧ ((offerAll items b).more = false ∧ items.length ≤ n ∨ (offerAll items b).more
        ∧ (offerAll items b).kept ≠ [] ∧ n < items.length) := by
  induction items generalizing b with
  | nil => exact ⟨0, (append_nil _).symm, hfits, .inl ⟨hmore, Nat.le_refl _⟩⟩
  | cons item rest ih =>
    unfold offerAll offer
    by_cases hfull : (b.page ≤ b.kept.length
        || (!b.kept.isEmpty && decide (maxInboxPageBytes < b.bytes + item.len)))
    · rw [if_pos hfull]
      refine ⟨0, (append_nil _).symm, hfits, .inr ⟨rfl, ?_, Nat.succ_pos _⟩⟩
      show b.kept ≠ []
      intro hnil
      rw [hnil] at hfull
      exact absurd hfull (by simpa using Nat.pos_iff_ne_zero.mp hpage)
    · rw [if_neg hfull]
      have hroom : b.kept.length < b.page := by
        by_contra hge
        exact hfull (by simp [Nat.le_of_not_lt hge])
      obtain ⟨n, hkept, hlen, hend⟩ :=
        ih ⟨b.kept ++ [item], b.bytes + item.len, b.page, b.more⟩ hmore hpage
          (by simpa using Nat.succ_le_of_lt hroom)
      refine ⟨n + 1, ?_, hlen, ?_⟩
      · rw [hkept, take_succ_cons, append_assoc]
        rfl
      · exact hend.imp (fun h => ⟨h.1, Nat.succ_le_succ h.2⟩) fun h => ⟨h.1, h.2.1, Nat.succ_lt_succ h.2.2⟩

end PageBuilder

variable {page : Nat}

theorem readPage_ok (hpage : 0 < page) (items : List StoredEnvelope) :
    ∃ n, (readPage page items).envelopes = items.take n
      ∧ ((readPage page items).nextAfter = none ∧ items.length ≤ n
        ∨ ∃ last ∈ items.take n, (readPage page items).nextAfter = some last.id
          ∧ (items.take n).getLast? = some last ∧ n < items.length) := by
  obtain ⟨n, hkept, hlen, hend⟩ :=
    PageBuilder.offerAll_ok (items.take (page + 1)) (.new page) rfl hpage (Nat.zero_le _)
  have htake : (PageBuilder.offerAll (items.take (page + 1)) (.new page)).kept
      = items.take (min n (page + 1)) := by
    rw [hkept, take_take]
    rfl
  refine ⟨min n (page + 1), htake, ?_⟩
  rcases hend with ⟨hmore, hall⟩ | ⟨hmore, hsome, hleft⟩
  · left
    -- fewer rows were fetched than asked for, so there were no more
    have hfetched : (items.take (page + 1)).length ≤ page := by
      have hlen' := hlen
      rw [hkept, take_of_length_le hall] at hlen'
      exact hlen'
    have hfew : items.length ≤ page := by
      rw [length_take] at hfetched
      omega
    refine ⟨?_, ?_⟩
    · show (if _ then _ else _) = _
      rw [if_neg (by simp [hmore])]
    · rw [length_take] at hall
      omega
  · right
    rw [htake] at hsome
    have hlast := getLast?_eq_some_getLast hsome
    have hbehind : min n (page + 1) < items.length := by
      rw [length_take] at hleft
      omega
    refine ⟨(items.take (min n (page + 1))).getLast hsome, getLast_mem hsome, ?_, hlast, hbehind⟩
    show (if _ then _ else _) = _
    rw [if_pos hmore, htake, hlast]
    rfl

namespace Mailbox

/-- The rows a pull selects; the cursor of a request may have either sign. -/
def readable (now : Int) (fingerprint : String) (after : Int) (row : MailRow) : Bool :=
  row.recipientFingerprint = fingerprint && decide (after < row.id) && row.keeping.ready
    && unexpired now row.expiresAt

/-- The rows a pull has yet to list. -/
def remaining (now : Int) (fingerprint : String) (after : Int) (m : Mailbox) : List MailRow :=
  (m.purgeExpired now).rows.filter (readable now fingerprint after)

/-- `list_after`, for either table. -/
def listAfter (table : MailTable) (now : Int) (fingerprint : String) (after limit : Option Int) (m : Mailbox) :
    Except Error (MailboxPage × Mailbox) := do
  let page ← pageSize limit
  .ok (readPage page ((m.remaining now fingerprint (after.getD 0)).map (MailRow.entry table)), m.purgeExpired now)

theorem pageSize_pos {limit : Option Int} (h : pageSize limit = .ok page) : 0 < page := by
  unfold pageSize at h
  split at h
  next =>
    cases h
    exact Nat.succ_pos _
  next n =>
    obtain ⟨hn, h⟩ := then_ok h
    cases h
    simp only [Bool.and_eq_true, decide_eq_true_eq] at hn
    omega

variable {now : Int} {fingerprint : String} {after : Int} {row : MailRow} {m : Mailbox}

theorem listAfter_ok {table : MailTable} {after limit : Option Int} {m' : Mailbox} {page : MailboxPage}
    (h : m.listAfter table now fingerprint after limit = .ok (page, m')) : m' = m.purgeExpired now := by
  obtain ⟨_, -, h⟩ := try_ok h
  cases h
  rfl

theorem mem_purgeExpired :
    row ∈ (m.purgeExpired now).rows ↔ row ∈ m.rows ∧ unexpired now row.expiresAt := by
  unfold purgeExpired
  rw [Serial.mem_delete, Bool.not_eq_false']

theorem readable_iff :
    readable now fingerprint after row ↔ row.recipientFingerprint = fingerprint ∧ after < row.id
      ∧ row.keeping.ready ∧ unexpired now row.expiresAt := by
  unfold readable
  simp only [Bool.and_eq_true, decide_eq_true_eq, and_assoc]

theorem mem_remaining :
    row ∈ m.remaining now fingerprint after ↔ row ∈ m.rows ∧ readable now fingerprint after row := by
  unfold remaining
  rw [mem_filter, mem_purgeExpired]
  constructor
  · exact fun h => ⟨h.1.1, h.2⟩
  · exact fun h => ⟨⟨h.1, (readable_iff.mp h.2).2.2.2⟩, h.2⟩

end Mailbox

end KeyQuorum.Relay
