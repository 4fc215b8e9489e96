/-
  **THE `KQTF` CONTAINER** (`encode` / `decode` in `file_history/container.rs`).

  `magic | version | file_id | lp(logical_name) | history_root | policy? |
  revisions | proofs | events [| event proofs]`.  The version byte is chosen
  from the content (5, 6, 7 or 8) and re-checked on decode.
-/
import KeyQuorum.FileHistory.Verify

namespace KeyQuorum

open List Foundation

def containerMagic : Bytes := utf8Bytes "KQTF"

/-- `CONTAINER_VERSION`: the newest version. -/
def containerVersion : UInt8 := 8

namespace TrackedFile

def finalized (f : TrackedFile) : Bool := f.proofs.any (fun proof => proof.kind = .finalization)

def coauthored (f : TrackedFile) : Bool := f.proofs.any (fun proof => proof.kind = .coAuthor)

/-- The version `encode_unchecked` writes. -/
def version (f : TrackedFile) : UInt8 :=
  match f.coauthored, f.eventProofs.isEmpty, f.finalized with
  | true, _, _ => 8
  | false, false, _ => 7
  | false, true, true => 6
  | false, true, false => 5

def encodeEventProofs (version : UInt8) (eventProofs : List EventProof) : Except Error Bytes :=
  if version ≥ 7 then pushList 4 EventProof.encode eventProofs else .ok []

def encodeAs (version : UInt8) (root : Digest) (f : TrackedFile) : Except Error Bytes := do
  let logicalName ← pushStr f.logicalName
  let policy ← pushOpt FilePolicy.encode f.policy
  let revisions ← pushList 4 StoredRevision.encode f.revisions
  let proofs ← pushList 4 RevisionProof.encode f.proofs
  let events ← pushList 4 HistoryEvent.encode f.events
  let eventProofs ← encodeEventProofs version f.eventProofs
  .ok [containerMagic, [version], f.fileId.bytes, logicalName, root.bytes, policy, revisions,
    proofs, events, eventProofs].flatten

/-- The event proofs of `decode`: only from version 7 on, and version 7 never writes an empty
list. -/
def decodeEventProofs (version : UInt8) : Reader Error (List EventProof) :=
  if version ≥ 7 then do
    let count ← bad takeU32
    Reader.require (!(count = 0 && version = 7)) .invalidTrackedFile
    EventProof.decode.readN count
  else pure []

/-- The fields of `decode`, with the stored root, before the final check. -/
def decodeFields : Reader Error (TrackedFile × Digest) := do
  let magic ← takeFixed 4
  Reader.require (magic.bytes = containerMagic) .invalidTrackedFile
  let version ← takeByte
  Reader.require (4 ≤ version && version ≤ containerVersion) .invalidTrackedFile
  let fileId ← takeFixed 16
  let logicalName ← takeStr
  let storedRoot ← takeFixed 32
  let policy ← takeOpt FilePolicy.decode
  let revisions ← takeList 4 (StoredRevision.decode version)
  let proofs ← takeList 4 RevisionProof.decode
  -- finalizations came with version 6, and version 8 means there is a co-author proof
  Reader.require (!(version < 6 && proofs.any (fun proof => proof.kind = .finalization)))
    .invalidTrackedFile
  Reader.require (proofs.any (fun proof => proof.kind = .coAuthor) = (version = 8 : Bool))
    .invalidTrackedFile
  let events ← takeList 4 HistoryEvent.decode
  let eventProofs ← decodeEventProofs version
  pure ({ fileId, logicalName, revisions, proofs, events, eventProofs, policy }, storedRoot)

section Container

variable [Crypto]

def encodeUnchecked (f : TrackedFile) : Except Error Bytes := f.encodeAs f.version f.historyRoot

variable [CharTable]

/-- `encode`: serialize, refusing a history that would not decode again. -/
def encode (f : TrackedFile) : Except Error Bytes := do
  let _ ← verifyStructure f
  f.encodeUnchecked

/-- `decode`: parse, refuse trailing bytes, verify, and compare the stored root. -/
def decode (bytes : Bytes) : Except Error TrackedFile := do
  let ((file, storedRoot), rest) ← decodeFields bytes
  if !rest.isEmpty then .error .invalidTrackedFile
  else do
    let root ← verifyStructure file
    if root ≠ storedRoot then .error .invalidTrackedFile
    else .ok file

end Container

/-! ## §1. The version rules. -/

/-- What `decode` asks of a file it read under `version`. -/
structure VersionFits (version : UInt8) (f : TrackedFile) : Prop where
  lower : 4 ≤ version
  upper : version ≤ containerVersion
  finalization : version < 6 → f.finalized = false
  coauthor : f.coauthored = true ↔ version = 8
  eventProofs : version < 7 → f.eventProofs = []
  nonempty : version = 7 → f.eventProofs ≠ []

variable {version : UInt8} {f : TrackedFile} {root : Digest} {bs data rest : Bytes}

theorem VersionFits.cases (h : VersionFits version f) :
    version = 4 ∨ version = 5 ∨ version = 6 ∨ version = 7 ∨ version = 8 := by
  have hlow : 4 ≤ version.toNat := UInt8.le_iff_toNat_le.mp h.lower
  have hup : version.toNat ≤ 8 := UInt8.le_iff_toNat_le.mp h.upper
  simp only [← UInt8.toNat_inj]
  show _ = 4 ∨ _ = 5 ∨ _ = 6 ∨ _ = 7 ∨ _ = 8
  omega

theorem version_fits (f : TrackedFile) : VersionFits f.version f ∧ 5 ≤ f.version := by
  unfold version
  cases hc : f.coauthored <;> cases hp : f.eventProofs.isEmpty <;> cases hf : f.finalized <;>
    refine ⟨⟨by decide, by decide, ?_, ?_, ?_, ?_⟩, by decide⟩ <;>
    simp [hc, hf, ← List.isEmpty_iff, hp]

/-- A version from 5 up that fits is the version `encode` writes, unless it is a 6 without a
finalization. -/
theorem VersionFits.version_eq_iff (h : VersionFits version f)
    (hv : 5 ≤ version) : f.version = version ↔ (version = 6 → f.finalized) := by
  have hco : version ≠ 8 → f.coauthored = false := fun hne =>
    Bool.eq_false_iff.mpr (fun hc => hne (h.coauthor.mp hc))
  rcases h.cases with rfl | rfl | rfl | rfl | rfl
  · exact absurd hv (by decide)
  · simp [TrackedFile.version, hco (by decide), h.eventProofs (by decide), h.finalization (by decide)]
  · cases hf : f.finalized <;>
      simp [TrackedFile.version, hco (by decide), h.eventProofs (by decide), hf]
  · cases hp : f.eventProofs with
    | nil => exact absurd hp (h.nonempty rfl)
    | cons p ps => simp [TrackedFile.version, hco (by decide), hp]
  · simp [TrackedFile.version, h.coauthor.mpr rfl]

/-! ## §2. The fields. -/

theorem decodeEventProofs_reads (h : VersionFits version f)
    (hbs : encodeEventProofs version f.eventProofs = .ok bs) :
    Reads (decodeEventProofs version) bs f.eventProofs := by
  unfold decodeEventProofs
  unfold encodeEventProofs at hbs
  split at hbs
  next hge =>
    rw [if_pos hge]
    obtain ⟨count, hc, hbs⟩ := try_ok hbs
    obtain ⟨body, hb, hbs⟩ := try_ok hbs
    cases hbs
    refine ((bad_inverts (takeCount_inverts 4)).reads hc).bind ?_
    have hcount : (!(decide (f.eventProofs.length = 0) && decide (version = 7))) := by
      by_cases h7 : version = 7
      · simpa [h7] using h.nonempty h7
      · simp [h7]
    exact .require_bind hcount (EventProof.decode_inverts.reads_list hb)
  next hlt =>
    rw [if_neg hlt]
    cases hbs
    rw [h.eventProofs (by simpa using hlt)]
    exact .pure []

theorem decodeFields_reads (h : VersionFits version f) (hv : 5 ≤ version)
    (henc : encodeAs version root f = .ok bs) : Reads decodeFields bs (f, root) := by
  obtain ⟨name, hname, henc⟩ := try_ok henc
  obtain ⟨policy, hpol, henc⟩ := try_ok henc
  obtain ⟨revisions, hrev, henc⟩ := try_ok henc
  obtain ⟨proofs, hpro, henc⟩ := try_ok henc
  obtain ⟨events, hev, henc⟩ := try_ok henc
  obtain ⟨eventProofs, hep, henc⟩ := try_ok henc
  cases henc
  have hv5 : ¬ version < 5 := by simpa using hv
  have hfin : (!(decide (version < 6)
      && f.proofs.any (fun proof => decide (proof.kind = .finalization)))) := by
    by_cases h6 : version < 6
    · have := h.finalization h6
      rw [finalized] at this
      simp [this]
    · simp [h6]
  have hco : decide (f.proofs.any (fun proof => decide (proof.kind = .coAuthor))
      = decide (version = 8)) := by
    rw [decide_eq_true_eq, Bool.eq_iff_iff, decide_eq_true_eq]
    exact h.coauthor
  simp only [flatten_cons, flatten_nil, append_nil]
  refine ((takeFixed_inverts 4).reads (a := ⟨containerMagic, by decide⟩) rfl).bind ?_
  refine .require_bind (by simp) ?_
  refine (takeByte_inverts.reads rfl).bind ?_
  refine .require_bind (by simpa using ⟨h.lower, h.upper⟩) ?_
  refine ((takeFixed_inverts 16).reads rfl).bind ?_
  refine (takeStr_inverts.reads hname).bind ?_
  refine ((takeFixed_inverts 32).reads rfl).bind ?_
  refine ((takeOpt_inverts FilePolicy.decode_inverts).reads hpol).bind ?_
  refine ((takeList_inverts 4 (StoredRevision.decode_inverts hv5)).reads hrev).bind ?_
  refine ((takeList_inverts 4 RevisionProof.decode_inverts).reads hpro).bind ?_
  refine .require_bind hfin ?_
  refine .require_bind hco ?_
  refine ((takeList_inverts 4 HistoryEvent.decode_inverts).reads hev).bind ?_
  exact (decodeEventProofs_reads h hep).bind_last (.pure _)

theorem encodeAs_version (henc : encodeAs version root f = .ok bs) : bs[4]? = some version := by
  obtain ⟨name, -, henc⟩ := try_ok henc
  obtain ⟨policy, -, henc⟩ := try_ok henc
  obtain ⟨revisions, -, henc⟩ := try_ok henc
  obtain ⟨proofs, -, henc⟩ := try_ok henc
  obtain ⟨events, -, henc⟩ := try_ok henc
  obtain ⟨eventProofs, -, henc⟩ := try_ok henc
  injection henc with henc
  rw [← henc, flatten_cons, getElem?_append_right (by decide)]
  rfl

theorem decodeEventProofs_ok (h : decodeEventProofs version data = .ok (l, rest)) :
    (version < 7 → l = []) ∧ (version = 7 → l ≠ []) ∧
      ∃ bs, encodeEventProofs version l = .ok bs ∧ data = bs ++ rest := by
  unfold decodeEventProofs at h
  split at h
  next hge =>
    obtain ⟨n, count, mid, hc, rfl, h₁⟩ := (bad_inverts (takeCount_inverts 4)).peel h
    obtain ⟨hcount, h₂⟩ := Reader.require_bind_ok h₁
    obtain ⟨rfl, body, hb, rfl⟩ := EventProof.decode_inverts.writes_list h₂
    refine ⟨fun hlt => ?_, fun h7 => ?_, count ++ body, ?_, by rw [append_assoc]⟩
    · exact absurd hge (by simpa using hlt)
    · rintro rfl
      simp [h7] at hcount
    · rw [encodeEventProofs, if_pos hge]
      simp [pushList, hc, hb]
  next hlt =>
    obtain ⟨rfl, rfl⟩ := Reader.pure_ok h
    refine ⟨fun _ => rfl, fun h7 => absurd (h7 ▸ hlt) (by decide), [], ?_, rfl⟩
    rw [encodeEventProofs, if_neg hlt]

/-- **What the field reader accepted**, from version 5 on, is what the writer writes. -/
theorem decodeFields_ok (h : decodeFields data = .ok ((f, root), rest)) :
    ∃ version, VersionFits version f ∧ data[4]? = some version ∧
      (5 ≤ version → ∃ bs, encodeAs version root f = .ok bs ∧ data = bs ++ rest) := by
  obtain ⟨magic, _, _, ⟨⟩, rfl, k₁⟩ := (takeFixed_inverts 4).peel h
  obtain ⟨hmagic, k₂⟩ := Reader.require_bind_ok k₁
  obtain ⟨version, _, _, ⟨⟩, rfl, k₃⟩ := takeByte_inverts.peel k₂
  obtain ⟨hrange, k₄⟩ := Reader.require_bind_ok k₃
  obtain ⟨fileId, _, _, ⟨⟩, rfl, k₅⟩ := (takeFixed_inverts 16).peel k₄
  obtain ⟨logicalName, nameBytes, _, hname, rfl, k₆⟩ := takeStr_inverts.peel k₅
  obtain ⟨storedRoot, _, _, ⟨⟩, rfl, k₇⟩ := (takeFixed_inverts 32).peel k₆
  obtain ⟨policy, policyBytes, _, hpol, rfl, k₈⟩ :=
    (takeOpt_inverts FilePolicy.decode_inverts).peel k₇
  obtain ⟨revisions, _, hrev, k₉⟩ := Reader.bind_ok k₈
  obtain ⟨proofs, proofBytes, _, hpro, rfl, k₁₀⟩ :=
    (takeList_inverts 4 RevisionProof.decode_inverts).peel k₉
  obtain ⟨hfin, k₁₁⟩ := Reader.require_bind_ok k₁₀
  obtain ⟨hco, k₁₂⟩ := Reader.require_bind_ok k₁₁
  obtain ⟨events, eventBytes, _, hev, rfl, k₁₃⟩ :=
    (takeList_inverts 4 HistoryEvent.decode_inverts).peel k₁₂
  obtain ⟨eventProofs, _, hep, k₁₄⟩ := Reader.bind_ok k₁₃
  obtain ⟨hfile, rfl⟩ := Reader.pure_ok k₁₄
  cases hfile
  obtain ⟨hnone, hsome, eventProofBytes, hepb, rfl⟩ := decodeEventProofs_ok hep
  have hmagic : magic.bytes = containerMagic := of_decide_eq_true hmagic
  rw [Bool.and_eq_true, decide_eq_true_eq, decide_eq_true_eq] at hrange
  refine ⟨version, ⟨hrange.1, hrange.2, fun h6 => ?_, ?_, hnone, hsome⟩, ?_, fun hv => ?_⟩
  · simpa [finalized, h6] using hfin
  · rw [decide_eq_true_eq, Bool.eq_iff_iff, decide_eq_true_eq] at hco
    exact hco
  · rw [getElem?_append_right (by simp)]
    simp
  · -- version 4 lays revisions out differently, so only from 5 on the bytes are the writer's
    have hv5 : ¬ version < 5 := by simpa using hv
    obtain ⟨revisionBytes, hrevb, hdata⟩ :=
      (takeList_inverts 4 (StoredRevision.decode_inverts hv5)).writes hrev
    refine ⟨?bytes, ?written, ?split⟩
    case written =>
      simp only [encodeAs, hname, hpol, hrevb, hpro, hev, hepb, except_ok_bind]
      rfl
    case split =>
      rw [hdata, hmagic]
      simp

/-! ## §3. One encoding per file. -/

section Canonical

variable [Crypto] [CharTable] {f : TrackedFile} {bytes : Bytes}

theorem encode_ok (h : f.encode = .ok bytes) :
    verifyStructure f = .ok f.historyRoot ∧ f.encodeAs f.version f.historyRoot = .ok bytes := by
  obtain ⟨root, hroot, h⟩ := try_ok h
  obtain ⟨hwf, rfl⟩ := verifyStructure_ok_iff.mp hroot
  exact ⟨hroot, h⟩

theorem encode_eq (h : verifyStructure f = .ok root) :
    f.encode = f.encodeAs f.version f.historyRoot := by
  simp only [encode, h, except_ok_bind, encodeUnchecked]

theorem decode_ok (h : decode bytes = .ok f) :
    decodeFields bytes = .ok ((f, f.historyRoot), []) ∧ verifyStructure f = .ok f.historyRoot := by
  obtain ⟨⟨⟨file, storedRoot⟩, rest⟩, hfields, h⟩ := try_ok h
  obtain ⟨hrest, h⟩ := else_ok h
  obtain ⟨root, hroot, h⟩ := try_ok h
  obtain ⟨heq, h⟩ := else_ok h
  cases h
  have hend : rest = [] := by simpa using hrest
  obtain ⟨-, rfl⟩ := verifyStructure_ok_iff.mp hroot
  rw [not_not] at heq
  exact ⟨by rw [hfields, heq, hend], hroot⟩

theorem decode_of_fields (hfields : decodeFields bytes = .ok ((f, f.historyRoot), []))
    (hroot : verifyStructure f = .ok f.historyRoot) : decode bytes = .ok f := by
  simp [decode, hfields, hroot]

theorem decode_of_encodeAs (hfits : VersionFits version f) (hv : 5 ≤ version)
    (hroot : verifyStructure f = .ok f.historyRoot)
    (hbytes : f.encodeAs version f.historyRoot = .ok bytes) : decode bytes = .ok f := by
  have hreads := decodeFields_reads hfits hv hbytes []
  rw [append_nil] at hreads
  exact decode_of_fields hreads hroot

theorem encodeAs_of_decode (h : decode bytes = .ok f) (hbyte : bytes[4]? = some version)
    (hv : 5 ≤ version) : VersionFits version f ∧ f.encodeAs version f.historyRoot = .ok bytes := by
  obtain ⟨version', hfits, hbyte', hbytes⟩ := decodeFields_ok (decode_ok h).1
  obtain rfl : version' = version := Option.mem_unique hbyte' hbyte
  obtain ⟨bs, hbs, hsplit⟩ := hbytes hv
  rw [append_nil] at hsplit
  exact ⟨hfits, hsplit ▸ hbs⟩

/-- **What `encode` writes, `decode` reads back**, whichever version the content asked for. -/
theorem decode_encode {f : TrackedFile} {bytes : Bytes} (h : f.encode = .ok bytes) :
    decode bytes = .ok f := by
  obtain ⟨hroot, hbytes⟩ := encode_ok h
  obtain ⟨hfits, hv⟩ := f.version_fits
  exact decode_of_encodeAs hfits hv hroot hbytes

end Canonical

section

attribute [local instance] Sample.crypto CharTable.ascii
open Sample

theorem decode_encode_sample :
    ∃ bytes, full.encode = .ok bytes ∧ decode bytes = .ok full := by
  have hencode : full.encode = .ok (bytesOf full.encode) := by decide +kernel
  exact ⟨_, hencode, decode_encode hencode⟩

end

section Canonical

variable [Crypto] [CharTable] {f : TrackedFile} {bytes : Bytes}

omit [Crypto] [CharTable] in
theorem encodeAs_below_seven (hv : v < 7) (hw : w < 7) (h : f.encodeAs v root = .ok bytes) :
    ∃ bytes', f.encodeAs w root = .ok bytes' := by
  have hnone : encodeEventProofs v f.eventProofs = encodeEventProofs w f.eventProofs := by
    rw [encodeEventProofs, if_neg (UInt8.not_le.mpr hv), encodeEventProofs, if_neg (UInt8.not_le.mpr hw)]
  obtain ⟨name, hname, k₁⟩ := try_ok h
  obtain ⟨policy, hpol, k₂⟩ := try_ok k₁
  obtain ⟨revisions, hrev, k₃⟩ := try_ok k₂
  obtain ⟨proofs, hpro, k₄⟩ := try_ok k₃
  obtain ⟨events, hev, k₅⟩ := try_ok k₄
  obtain ⟨eventProofs, hep, -⟩ := try_ok k₅
  refine ⟨?bytes, ?written⟩
  case written =>
    simp only [encodeAs, hname, hpol, hrev, hpro, hev, ← hnone, hep, except_ok_bind]
    rfl

/-- What makes a file's container a version 7 or 8, or a 6 that has to be one. -/
def hasOneVersion (f : TrackedFile) : Bool :=
  f.finalized || f.coauthored || !f.eventProofs.isEmpty

omit [Crypto] [CharTable] in
theorem VersionFits.version_eq (h : VersionFits version f) (hv : 5 ≤ version) (hone : f.hasOneVersion) :
    f.version = version := by
  refine (h.version_eq_iff hv).mpr ?_
  rintro rfl
  have hco : f.coauthored = false :=
    Bool.eq_false_iff.mpr fun hc => absurd (h.coauthor.mp hc) (by decide)
  simpa [hasOneVersion, hco, h.eventProofs (by decide)] using hone

theorem exists_other_bytes (h : decode bytes = .ok f) (hbyte : bytes[4]? = some version)
    (hv : 5 ≤ version) (hone : f.hasOneVersion = false) :
    ∃ bytes' version', decode bytes' = .ok f ∧ bytes'[4]? = some version' ∧ 5 ≤ version'
      ∧ bytes' ≠ bytes := by
  simp only [hasOneVersion, Bool.or_eq_false_iff, Bool.not_eq_eq_eq_not, Bool.not_false,
    List.isEmpty_iff] at hone
  obtain ⟨⟨hfin, hco⟩, hnone⟩ := hone
  obtain ⟨hfits, hbytes⟩ := encodeAs_of_decode h hbyte hv
  -- Versions 5 and 6 both fit such a file and differ in the version byte only.
  have hfitsAt (w : UInt8) (hlow : 4 ≤ w) (hw : w < 7) : VersionFits w f := {
    lower := hlow
    upper := UInt8.le_of_lt (UInt8.lt_trans hw (by decide))
    finalization := fun _ => hfin
    coauthor := by
      rw [hco]
      exact ⟨fun hc => absurd hc (by simp), fun h8 => absurd (h8 ▸ hw) (by decide)⟩
    eventProofs := fun _ => hnone
    nonempty := fun h7 => absurd (h7 ▸ hw) (by decide) }
  have hother (w : UInt8) (hlow : 5 ≤ w) (hw : w < 7) (hvw : version < 7) (hne : w ≠ version) :
      ∃ bytes' version', decode bytes' = .ok f ∧ bytes'[4]? = some version' ∧ 5 ≤ version'
        ∧ bytes' ≠ bytes := by
    obtain ⟨bytes', hbytes'⟩ := encodeAs_below_seven hvw hw hbytes
    refine ⟨bytes', w, ?_, encodeAs_version hbytes', hlow, ?_⟩
    · exact decode_of_encodeAs (hfitsAt w (UInt8.le_trans (by decide) hlow) hw) hlow (decode_ok h).2
        hbytes'
    · rintro rfl
      exact hne (Option.some.inj ((encodeAs_version hbytes').symm.trans hbyte))
  rcases hfits.cases with rfl | rfl | rfl | rfl | rfl
  · exact absurd hv (by decide)
  · exact hother 6 (by decide) (by decide) (by decide) (by decide)
  · exact hother 5 (by decide) (by decide) (by decide) (by decide)
  · exact absurd hnone (hfits.nonempty rfl)
  · exact absurd (hfits.coauthor.mpr rfl) (by simp [hco])

/-- **Which accepted bytes are the ones `encode` writes**: all of versions 5 to 8 but a version 6
without a finalization.  So a file has one container of these versions exactly when it holds a
finalization, a co-author proof or an event proof. -/
theorem encode_decode_iff {bytes : Bytes} {f : TrackedFile} {version : UInt8}
    (h : decode bytes = .ok f) (hbyte : bytes[4]? = some version) (hv : 5 ≤ version) :
    (f.encode = .ok bytes ↔ (version = 6 → f.finalized = true))
      ∧ ((∀ bytes' version', decode bytes' = .ok f → bytes'[4]? = some version' → 5 ≤ version' →
          bytes' = bytes) ↔ f.hasOneVersion = true) := by
  obtain ⟨hfits, hbytes⟩ := encodeAs_of_decode h hbyte hv
  constructor
  · rw [← hfits.version_eq_iff hv, encode_eq (decode_ok h).2]
    constructor
    · intro henc
      exact Option.some.inj ((encodeAs_version henc).symm.trans hbyte)
    · intro heq
      rw [heq]
      exact hbytes
  · constructor
    · intro hunique
      by_contra hone
      obtain ⟨bytes', version', hdecode, hbyte', hv', hne⟩ :=
        exists_other_bytes h hbyte hv (Bool.eq_false_iff.mpr hone)
      exact hne (hunique bytes' version' hdecode hbyte' hv')
    · intro hone bytes' version' hdecode hbyte' hv'
      obtain ⟨hfits', hbytes'⟩ := encodeAs_of_decode hdecode hbyte' hv'
      rw [← hfits'.version_eq hv' hone, hfits.version_eq hv hone, hbytes] at hbytes'
      exact (Except.ok.inj hbytes').symm

end Canonical

section

attribute [local instance] Sample.crypto CharTable.ascii
open Sample

theorem encode_decode_iff_sample :
    ∃ bytes, decode bytes = .ok full ∧ bytes[4]? = some 8 ∧ full.encode = .ok bytes
      ∧ ∀ bytes' version', decode bytes' = .ok full → bytes'[4]? = some version' →
        5 ≤ version' → bytes' = bytes := by
  have hdecode : decode (bytesOf full.encode) = .ok full := by decide +kernel
  have hbyte : (bytesOf full.encode)[4]? = some 8 := by decide +kernel
  obtain ⟨hencode, hunique⟩ := encode_decode_iff hdecode hbyte (by decide)
  exact ⟨_, hdecode, hbyte, hencode.mpr (by decide), hunique.mpr (by decide +kernel)⟩

/-- The empty file written under version 6 is accepted, and `encode` writes it under version 5. -/
theorem version_six_reencodes :
    ∃ bytes bytes', decode bytes = .ok (TrackedFile.new Sample.fileId "notes.txt") ∧ bytes[4]? = some 6
      ∧ (TrackedFile.new Sample.fileId "notes.txt").encode = .ok bytes' ∧ bytes' ≠ bytes
      ∧ decode bytes' = .ok (TrackedFile.new Sample.fileId "notes.txt") := by
  refine ⟨bytesOf ((TrackedFile.new Sample.fileId "notes.txt").encodeAs 6 genesis),
    bytesOf (TrackedFile.new Sample.fileId "notes.txt").encode, ?_, ?_, ?_, ?_, ?_⟩
  all_goals decide +kernel

end

end TrackedFile

end KeyQuorum
