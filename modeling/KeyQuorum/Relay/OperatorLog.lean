/-
  **THE CONSOLE'S RECORD OF WHAT WAS DONE** (`relay/operator_log.rs`), and
  **CAN A LICENCE ALWAYS BE VOIDED?**

  A change made from the console is recorded with the ids it produced, in the
  transaction of the change.  The record is bounded, and the record of a
  voiding names every key it revoked: from some number of keys on the record
  is refused, and the voiding with it.
-/
import KeyQuorum.Relay.Voiding

namespace KeyQuorum.Relay

open List Foundation

/-! ## §1. The log. -/

/-- A row of `operator_actions`. -/
structure OperatorAction where
  operator : String
  action : String
  subject : Option String
  success : Bool
  operationId : Option String
  result : Option String
  deriving DecidableEq, Repr

/-- The table; `idx_operator_actions_operation` keeps an operation id to one row. -/
structure OperatorLog where
  rows : List OperatorAction
  unique : (rows.filterMap OperatorAction.operationId).Nodup

/-- `Note`: who is doing what. -/
structure Note where
  operationId : Option String
  operator : String
  action : String
  subject : String
  deriving DecidableEq, Repr

def maxOperatorChars : Nat := 320

def maxActionChars : Nat := 64

def maxSubjectChars : Nat := 200

def maxResultBytes : Nat := 1000

/-- `clip`: no control characters, and no more than so many others. -/
def clip (text : String) (max : Nat) : String :=
  String.ofList ((text.toList.filter fun c => !isControl c).take max)

def validOperationId (id : String) : Bool :=
  8 ≤ id.utf8ByteSize && id.utf8ByteSize ≤ 64 && id.toList.all fun c => c.isAlphanum || c = '_' || c = '-'

variable {log : OperatorLog} {note : Note}

namespace OperatorLog

def findOperation (log : OperatorLog) (id : String) : Option OperatorAction :=
  log.rows.find? fun row => row.operationId = some id

def isNew (log : OperatorLog) (row : OperatorAction) : Bool :=
  row.operationId.all fun id => !(log.rows.filterMap OperatorAction.operationId).contains id

theorem unique_append {row : OperatorAction} (h : log.isNew row) :
    ((log.rows ++ [row]).filterMap OperatorAction.operationId).Nodup := by
  rw [filterMap_append]
  cases hid : row.operationId with
  | none => simpa [hid] using log.unique
  | some id =>
    have hnew : id ∉ log.rows.filterMap OperatorAction.operationId := by
      unfold isNew at h
      rw [hid] at h
      simpa using h
    have hlast : [row].filterMap OperatorAction.operationId = [id] := by simp [hid]
    rw [hlast]
    exact log.unique.append (nodup_singleton id) (by simpa using hnew)

/-- `INSERT INTO operator_actions`: an operation id that is given is new. -/
def insert (row : OperatorAction) (log : OperatorLog) : Except Error OperatorLog :=
  if h : log.isNew row = true then .ok ⟨log.rows ++ [row], unique_append h⟩ else .error .database

section Record

variable [CharTable]

def recordDone (note : Note) (result : String) (log : OperatorLog) : Except Error OperatorLog :=
  let operator := clip (trim note.operator) maxOperatorChars
  let action := clip note.action maxActionChars
  if operator.isEmpty || action.isEmpty then .error .invalidApiKeyRequest
  else if note.operationId.any (fun id => !validOperationId id) || maxResultBytes < result.utf8ByteSize then
    .error .invalidApiKeyRequest
  else log.insert ⟨operator, action, some (clip note.subject maxSubjectChars), true, note.operationId, some result⟩

/-- `done`: recorded when there is a note. -/
def done (note : Option Note) (result : String) (log : OperatorLog) : Except Error OperatorLog :=
  match note with
  | some note => log.recordDone note result
  | none => .ok log

/-- A note that can be recorded: it names someone and something, and its operation id is well formed and new. -/
structure Accepts (log : OperatorLog) (note : Note) : Prop where
  operator : (clip (trim note.operator) maxOperatorChars).isEmpty = false
  action : (clip note.action maxActionChars).isEmpty = false
  wellFormed : ∀ id ∈ note.operationId, validOperationId id = true
  unused : ∀ id ∈ note.operationId, log.findOperation id = none

/-- **The record is written exactly when the result fits.** -/
theorem Accepts.recordDone (h : log.Accepts note) (result : String) :
    (∃ log', log.recordDone note result = .ok log') ↔ result.utf8ByteSize ≤ maxResultBytes := by
  have hvalid : note.operationId.any (fun id => !validOperationId id) = false := by
    rw [Option.any_eq_false]
    intro id hid
    simp [h.wellFormed id hid]
  unfold OperatorLog.recordDone
  simp only [h.operator, h.action, hvalid, Bool.false_or, Bool.false_eq_true, if_false, decide_eq_true_eq]
  split
  next hlong =>
    constructor
    · intro ⟨_, hok⟩
      cases hok
    · intro hfits
      exact absurd hlong (Nat.not_lt.mpr hfits)
  next hshort =>
    refine ⟨fun _ => Nat.le_of_not_lt hshort, fun _ => ?_⟩
    unfold insert
    rw [dif_pos]
    · exact ⟨_, rfl⟩
    · unfold isNew
      rw [Option.all_eq_true]
      intro id hid
      have hfree := h.unused id hid
      unfold findOperation at hfree
      rw [List.find?_eq_none] at hfree
      simp only [Bool.not_eq_true', contains_eq_mem, decide_eq_false_iff_not, mem_filterMap]
      intro ⟨row, hrow, hsame⟩
      exact hfree row hrow (by simpa using hsame)

end Record

end OperatorLog

/-! ## §2. Voiding from the console. -/

def commaSeparated : List Nat → String
  | [] => ""
  | [id] => toString id
  | id :: rest => toString id ++ "," ++ commaSeparated rest

/-- What a voiding records: its licence and the keys it revoked, as JSON. -/
def voidResult (id : Nat) (revoked : List Nat) : String :=
  "\x7b\"licence_id\":" ++ toString id ++ ",\"revoked_keys\":[" ++ commaSeparated revoked ++ "]\x7d"

theorem length_le_commaSeparated (ids : List Nat) : ids.length ≤ (commaSeparated ids).utf8ByteSize + 1 := by
  induction ids using commaSeparated.induct with
  | case1 => exact Nat.zero_le _
  | case2 id => exact Nat.le_add_left 1 _
  | case3 id rest hrest ih =>
    rw [commaSeparated]
    · simp only [String.utf8ByteSize_append, length_cons]
      have hcomma : ",".utf8ByteSize = 1 := rfl
      omega
    · exact hrest

theorem length_lt_voidResult (id : Nat) (revoked : List Nat) :
    revoked.length < (voidResult id revoked).utf8ByteSize := by
  have hids := length_le_commaSeparated revoked
  have hclose : "]\x7d".utf8ByteSize = 2 := rfl
  unfold voidResult
  simp only [String.utf8ByteSize_append]
  omega

/-- The key desk and the log of what operators did. -/
structure Console where
  desk : KeyDesk
  log : OperatorLog

namespace Console

variable [CharTable]

def voidLicence (note : Option Note) (id : Nat) (reason : Option String) (c : Console) :
    Except Error ((Bool × List Nat) × Console) := do
  let (voided, desk) ← c.desk.voidInner id reason
  let log ← c.log.done note (voidResult id voided.2)
  .ok (voided, ⟨desk, log⟩)

end Console

namespace KeyDesk

/-- `info(key)?.revoked_at.is_none()`. -/
def isLive (s : KeyDesk) (k : Nat) : Bool := (s.keys.find? k).any fun key => !key.revoked

def liveKeysOf (s : KeyDesk) (l : Nat) : List Nat := (s.keysOf l).filter s.isLive

/-- `REFERENCES api_keys(id)`: a linked key has a row. -/
def LinksResolve (s : KeyDesk) : Prop := ∀ k l, s.Linked k l → s.Known k

variable {s s' : KeyDesk} {k l : Nat}

theorem revokeBy_total (hknown : s.Known k) (actor : String) :
    ∃ s', s.revokeBy k actor = .ok s' ∧ ∀ other ≠ k, s'.keys.find? other = s.keys.find? other := by
  obtain ⟨key, hkey⟩ := hknown
  unfold revokeBy
  rw [hkey]
  simp only
  split
  next => exact ⟨s, rfl, fun _ _ => rfl⟩
  next =>
    refine ⟨_, rfl, fun other hother => ?_⟩
    let row : ApiKey := { key with revoked := true }
    have hrow : row.id = k := (Table.find?_some hkey).2
    show (s.keys.put row).find? other = s.keys.find? other
    exact Table.find?_put_ne (by rw [hrow]; exact hother)

/-- **Keys that have rows are revoked**, and those that were live are reported. -/
theorem revokeLive_total {keys : List Nat} (hnodup : keys.Nodup) (hknown : ∀ k ∈ keys, s.Known k) :
    ∃ s', revokeLive keys s = .ok (keys.filter s.isLive, s') := by
  induction keys generalizing s with
  | nil => exact ⟨s, rfl⟩
  | cons k rest ih =>
    obtain ⟨hnotin, hrest⟩ := nodup_cons.mp hnodup
    obtain ⟨hk, hothers⟩ := forall_mem_cons.mp hknown
    obtain ⟨key, hkey⟩ := hk
    have hinfo : s.info k = .ok key := by
      unfold info okOr
      rw [hkey]
    have hlive : s.isLive k = !key.revoked := by
      unfold isLive
      rw [hkey]
      rfl
    unfold revokeLive
    rw [hinfo]
    cases hrevoked : key.revoked with
    | true =>
      obtain ⟨s', hs'⟩ := ih hrest hothers
      refine ⟨s', ?_⟩
      rw [filter_cons_of_neg (by simp [hlive, hrevoked])]
      simpa [hrevoked] using hs'
    | false =>
      -- the other keys are as they were when this one is revoked
      obtain ⟨mid, hmid, hsame⟩ := revokeBy_total ⟨key, hkey⟩ hostActor
      have hother : ∀ other ∈ rest, mid.keys.find? other = s.keys.find? other :=
        fun other hmem => hsame other (fun heq => hnotin (heq ▸ hmem))
      have hstill : ∀ other ∈ rest, mid.Known other := by
        intro other hmem
        unfold Known
        rw [hother other hmem]
        exact hothers other hmem
      have hfilter : rest.filter mid.isLive = rest.filter s.isLive := by
        refine filter_congr fun other hmem => ?_
        unfold isLive
        rw [hother other hmem]
      obtain ⟨s', hs'⟩ := ih hrest hstill
      refine ⟨s', ?_⟩
      rw [filter_cons_of_pos (by simp [hlive, hrevoked]), ← hfilter]
      simp [hrevoked, hmid, hs']

theorem keysOf_nodup (s : KeyDesk) (l : Nat) : (s.keysOf l).Nodup := by
  unfold keysOf
  rw [(perm_insertionSort _ _).nodup_iff]
  exact s.links.keyed.sublist (filter_sublist.map _)

section Voiding

variable [CharTable] {reason : Option String} {licence : Licence}

def validReason (reason : Option String) : Bool :=
  (trimmed reason).all fun text => text.length ≤ maxReasonChars && plain text

theorem markVoid_total (hreason : validReason reason) (hlicence : s.licences.find? l = some licence) :
    ∃ newly s', s.markVoid l reason = .ok (newly, s') := by
  have hplain : (trimmed reason).any (fun text => maxReasonChars < text.length || !plain text) = false := by
    unfold validReason at hreason
    rw [Option.any_eq_false]
    intro text htext
    rw [Option.all_eq_true] at hreason
    have hgood := hreason text htext
    simp only [Bool.and_eq_true, decide_eq_true_eq] at hgood
    simp [hgood.2, Nat.not_lt.mpr hgood.1]
  unfold markVoid
  simp only [hplain, hlicence, Bool.false_eq_true, if_false]
  split
  next => exact ⟨_, _, rfl⟩
  next => exact ⟨_, _, rfl⟩

/-- **Marking a licence and revoking its keys never fails.** -/
theorem voidInner_total (hresolve : s.LinksResolve) (hreason : validReason reason)
    (hlicence : s.licences.find? l = some licence) :
    ∃ newly s', s.voidInner l reason = .ok ((newly, s.liveKeysOf l), s') := by
  obtain ⟨newly, marked, hmark⟩ := markVoid_total hreason hlicence
  obtain ⟨hkeys, -, hlinks, -⟩ := markVoid_ok hmark
  have hsame : marked.keysOf l = s.keysOf l := by
    unfold keysOf
    rw [hlinks]
  have hknown : ∀ k ∈ s.keysOf l, marked.Known k := by
    intro k hk
    unfold Known
    rw [hkeys]
    exact hresolve k l (mem_keysOf.mp hk)
  have hlive : marked.isLive = s.isLive := by
    funext k
    unfold isLive
    rw [hkeys]
  obtain ⟨s', hs'⟩ := revokeLive_total (s.keysOf_nodup l) hknown
  refine ⟨newly, s', ?_⟩
  unfold voidInner
  rw [hmark]
  show (revokeLive (marked.keysOf l) marked >>= fun found => .ok ((newly, found.1), found.2)) = _
  rw [hsame, hs', hlive]
  rfl

end Voiding

end KeyDesk

namespace Console

variable [CharTable] {c : Console} {l : Nat}

theorem voidLicence_recorded (hresolve : c.desk.LinksResolve) {reason : Option String}
    (hreason : KeyDesk.validReason reason) {licence : Licence}
    (hlicence : c.desk.licences.find? l = some licence) (note : Option Note) :
    (∃ voided c', c.voidLicence note l reason = .ok (voided, c'))
      ↔ ∃ log', c.log.done note (voidResult l (c.desk.liveKeysOf l)) = .ok log' := by
  obtain ⟨newly, desk, hvoid⟩ := KeyDesk.voidInner_total hresolve hreason hlicence
  unfold voidLicence
  rw [hvoid]
  constructor
  · intro ⟨voided, c', h⟩
    obtain ⟨⟨found, last⟩, hfound, h⟩ := try_ok h
    cases hfound
    obtain ⟨log', hlog, -⟩ := try_ok h
    exact ⟨log', hlog⟩
  · intro ⟨log', hlog⟩
    refine ⟨(newly, c.desk.liveKeysOf l), ⟨desk, log'⟩, ?_⟩
    show (do
        let log ← c.log.done note (voidResult l (c.desk.liveKeysOf l))
        Except.ok ((newly, c.desk.liveKeysOf l), (⟨desk, log⟩ : Console))) = _
    rw [hlog]
    rfl

theorem not_voided_of_long {desk : KeyDesk} (hresolve : desk.LinksResolve)
    (hreason : KeyDesk.validReason reason) (hlicence : desk.licences.find? l = some licence)
    (hnote : log.Accepts note) (hlong : maxResultBytes < (voidResult l (desk.liveKeysOf l)).utf8ByteSize) :
    ¬∃ voided c', voidLicence (some note) l reason ⟨desk, log⟩ = .ok (voided, c') := by
  intro hvoided
  have hrecorded : ∃ log', log.recordDone note (voidResult l (desk.liveKeysOf l)) = .ok log' :=
    (@voidLicence_recorded _ ⟨desk, log⟩ l hresolve reason hreason licence hlicence (some note)).mp hvoided
  have hfits := (hnote.recordDone (voidResult l (desk.liveKeysOf l))).mp hrecorded
  exact absurd hlong (Nat.not_lt.mpr hfits)

/-- **A licence is voided exactly when its record fits**: for every desk whose links resolve, licence that
exists, reason that can be recorded and note with an operation id that is new, the call succeeds and leaves no
key of the licence live exactly when the ids of its live keys fit the record. -/
theorem voidLicence_iff (c : Console) (hresolve : c.desk.LinksResolve) (l : Nat) (licence : Licence)
    (hlicence : c.desk.licences.find? l = some licence) (reason : Option String)
    (hreason : KeyDesk.validReason reason = true) (note : Note) (hnote : c.log.Accepts note) :
    (∃ voided c', c.voidLicence (some note) l reason = .ok (voided, c')
        ∧ ∀ k, c'.desk.Linked k l → c'.desk.isLive k = false)
      ↔ (voidResult l (c.desk.liveKeysOf l)).utf8ByteSize ≤ maxResultBytes := by
  rw [← hnote.recordDone]
  constructor
  · intro ⟨voided, c', h, _⟩
    exact (voidLicence_recorded hresolve hreason hlicence (some note)).mp ⟨voided, c', h⟩
  · intro hfits
    obtain ⟨voided, c', h⟩ := (voidLicence_recorded hresolve hreason hlicence (some note)).mpr hfits
    refine ⟨voided, c', h, fun k hlinked => ?_⟩
    obtain ⟨⟨voided', desk⟩, hvoid, h⟩ := try_ok h
    obtain ⟨log, -, h⟩ := try_ok h
    cases h
    have hvoids := KeyDesk.voidInner_ok hvoid
    obtain ⟨key, hkey, hrevoked⟩ := hvoids.ended k ((KeyDesk.linked_congr hvoids.links).mp hlinked)
    unfold KeyDesk.isLive
    rw [hkey]
    simp [hrevoked]

end Console

end KeyQuorum.Relay

/-! ## §3. A licence with too many keys. -/

namespace KeyQuorum.Relay.Console.Sample

open List Foundation

attribute [local instance] CharTable.ascii

def key (id : Nat) : ApiKey := ⟨id, .ofNat 32 id, .inboxPush, none, none, none, false⟩

def licence : Licence := ⟨1, 1, none, false, none, none, ⟨1, "", none⟩, []⟩

def crowd (n : Nat) : KeyDesk where
  keys := ⟨(List.range' 1 n).map key, by
    rw [map_map]
    exact (map_id _).symm ▸ nodup_range'⟩
  events := []
  deliveries := .empty
  customers := .empty
  licences := Table.empty.add licence
  links := ⟨(List.range' 1 n).map fun id => ⟨id, 1, some 1, none⟩, by
    rw [map_map]
    exact (map_id _).symm ▸ nodup_range'⟩

theorem crowd_licence (n : Nat) : (crowd n).licences.find? 1 = some licence := rfl

theorem crowd_resolves (n : Nat) : (crowd n).LinksResolve := by
  intro k l ⟨link, hlink, _⟩
  obtain ⟨hrow, rfl⟩ := Table.find?_some hlink
  obtain ⟨id, hid, rfl⟩ := mem_map.mp hrow
  have hkey : (crowd n).keys.find? (key id).id = some (key id) := Table.find?_of_mem (mem_map_of_mem hid)
  exact ⟨key id, hkey⟩

def note : Note := ⟨some "operation-1", "ada@example", "void_licence", "licence 1"⟩

def log : OperatorLog := ⟨[], nodup_nil⟩

theorem log_accepts : log.Accepts note where
  operator := by decide +kernel
  action := by decide +kernel
  wellFormed := by
    intro id hid
    cases hid
    decide +kernel
  unused _ _ := rfl

theorem pair_voided :
    ∃ voided c', voidLicence (some note) 1 none ⟨crowd 2, log⟩ = .ok (voided, c')
      ∧ ∀ k, c'.desk.Linked k 1 → c'.desk.isLive k = false :=
  (voidLicence_iff ⟨crowd 2, log⟩ (crowd_resolves 2) 1 licence (crowd_licence 2) none rfl note
    log_accepts).mpr (by decide +kernel)

theorem length_liveKeysOf_crowd (n : Nat) : ((crowd n).liveKeysOf 1).length = n := by
  have hkeys : (crowd n).keysOf 1 = (List.range' 1 n).insertionSort (· ≤ ·) := by
    have hall : (crowd n).links.rows.filter (fun link => link.licenceId = 1) = (crowd n).links.rows := by
      refine filter_eq_self.mpr fun link hlink => ?_
      obtain ⟨id, -, rfl⟩ := mem_map.mp hlink
      rfl
    have hids : (crowd n).links.rows.map KeyLink.apiKeyId = List.range' 1 n := by
      show ((List.range' 1 n).map _).map _ = _
      rw [map_map]
      exact map_id _
    unfold KeyDesk.keysOf
    rw [hall, hids]
  have hlive : ∀ k ∈ (crowd n).keysOf 1, (crowd n).isLive k := by
    intro k hk
    rw [hkeys, mem_insertionSort] at hk
    have hkey : (crowd n).keys.find? (key k).id = some (key k) := Table.find?_of_mem (mem_map_of_mem hk)
    have hfound : (crowd n).keys.find? k = some (key k) := hkey
    unfold KeyDesk.isLive
    rw [hfound]
    rfl
  unfold KeyDesk.liveKeysOf
  rw [filter_eq_self.mpr hlive, hkeys, length_insertionSort, length_range']

/-- **A licence that cannot be voided**: with a thousand live keys the record does not fit, and the call
fails. -/
theorem crowd_not_voided :
    (crowd 1000).LinksResolve ∧ (∃ licence, (crowd 1000).licences.find? 1 = some licence)
      ∧ KeyDesk.validReason none = true ∧ log.Accepts note
      ∧ ¬∃ voided c', voidLicence (some note) 1 none ⟨crowd 1000, log⟩ = .ok (voided, c') := by
  refine ⟨crowd_resolves 1000, ⟨licence, crowd_licence 1000⟩, rfl, log_accepts, ?_⟩
  have hlong : maxResultBytes < (voidResult 1 ((crowd 1000).liveKeysOf 1)).utf8ByteSize := by
    have hlength := length_lt_voidResult 1 ((crowd 1000).liveKeysOf 1)
    rw [length_liveKeysOf_crowd] at hlength
    exact hlength
  exact not_voided_of_long (crowd_resolves 1000) rfl (crowd_licence 1000) log_accepts hlong

end KeyQuorum.Relay.Console.Sample
