/-
  **WHAT A PREPARED PACKAGE HANDS OVER.**

  A package that `prepare` has made holds, for every label it includes, the
  identity the source has under the label, with its generation and the
  secrets of the source's own slot.
-/
import KeyQuorum.Transfer.Steps

namespace KeyQuorum.Transfer

open List Foundation

section Entries

variable [KeyPairs] {here : End} {passphrases : String → Option String} {entries : List BundleEntry}
  {labels : List String} {label : String}

structure End.HandsOver (here : End) (row : IdentityRow) (slot : SlotRecord) (entry : BundleEntry) :
    Prop where
  identity : here.ledger.identityByLabel entry.label = some row
  generation : here.ledger.generation? row.id = some entry.generation
  valid : validateSlotLabel entry.label = .ok ()
  slot_eq : here.container.slot entry.label = some slot
  keys_eq : slot.publicKeys = (row.encPublic, row.signPublic)
  id_eq : entry.identityId = row.id
  encPublic_eq : entry.encPublic = row.encPublic
  signPublic_eq : entry.signPublic = row.signPublic
  secrets_eq : entry.secrets = some (slot.encryptionSecret, slot.signingSecret)

theorem End.secretEntry_ok (h : here.secretEntry passphrases label = .ok found) :
    ∃ row slot entry, found = some entry ∧ entry.label = label ∧ here.HandsOver row slot entry
      ∧ passphrases label = some slot.passphrase := by
  obtain ⟨row, hrow, h⟩ := try_ok h
  obtain ⟨generation, hgeneration, h⟩ := try_ok h
  obtain ⟨passphrase, hpassphrase, h⟩ := try_ok h
  obtain ⟨slot, hslot, h⟩ := try_ok h
  obtain ⟨hkeys, h⟩ := else_ok h
  cases h
  obtain ⟨hfound, hvalid, rfl⟩ := Container.openSlot_ok hslot
  exact ⟨row, slot, _, rfl, rfl, ⟨okOr_ok hrow, Ledger.generationOf_ok hgeneration, hvalid, hfound,
    not_not.mp hkeys, rfl, rfl, rfl, rfl⟩, okOr_ok hpassphrase⟩

omit [KeyPairs] in
theorem End.hintEntry_ok (h : here.hintEntry label = .ok (some entry)) : entry.secrets = none := by
  unfold End.hintEntry at h
  split at h
  next => cases h
  next =>
    obtain ⟨generation, -, h⟩ := try_ok h
    obtain rfl := Option.some.inj (Except.ok.inj h)
    rfl

theorem gather_secretEntry_ok (h : gather (here.secretEntry passphrases) labels = .ok entries) :
    entries.map BundleEntry.label = labels ∧ ∀ entry ∈ entries, ∃ row slot,
      here.HandsOver row slot entry ∧ passphrases entry.label = some slot.passphrase := by
  induction labels generalizing entries with
  | nil =>
    cases h
    exact ⟨rfl, nofun⟩
  | cons label labels ih =>
    obtain ⟨first, hfirst, h⟩ := try_ok h
    obtain ⟨more, hmore, h⟩ := try_ok h
    cases h
    obtain ⟨row, slot, entry, rfl, rfl, hhands⟩ := End.secretEntry_ok hfirst
    obtain ⟨hlabels, hmoreHands⟩ := ih hmore
    refine ⟨congrArg (entry.label :: ·) hlabels, fun other hother => ?_⟩
    rcases mem_cons.mp hother with rfl | hother
    · exact ⟨row, slot, hhands⟩
    · exact hmoreHands other hother

omit [KeyPairs] in
theorem gather_hintEntry_ok (h : gather here.hintEntry labels = .ok entries) :
    ∀ entry ∈ entries, entry.secrets = none := by
  induction labels generalizing entries with
  | nil =>
    cases h
    exact nofun
  | cons label labels ih =>
    obtain ⟨first, hfirst, h⟩ := try_ok h
    obtain ⟨more, hmore, h⟩ := try_ok h
    cases h
    intro entry hentry
    rcases mem_append.mp hentry with hentry | hentry
    · obtain rfl := Option.mem_toList.mp hentry
      exact End.hintEntry_ok hfirst
    · exact ih hmore entry hentry

end Entries

section Packages

variable [Crypto] [KeyPairs] {here : End} {request : Request}

structure End.Packed (here : End) (request : Request) (prepared : PreparedTransfer) : Prop where
  id_eq : prepared.bundle.id = request.txId
  operation_eq : prepared.bundle.operation = request.operation
  encodes : encodeBundle here.container prepared.bundle = .ok prepared.package
  included_eq : prepared.bundle.included = prepared.secretLabels
  handsOver : ∀ entry ∈ prepared.bundle.secretEntries, ∃ row slot, here.HandsOver row slot entry
    ∧ request.passphrases entry.label = some slot.passphrase

variable {prepared : PreparedTransfer}

theorem End.pack_ok (h : here.pack request secrets hints = .ok prepared) :
    here.Packed request prepared ∧ prepared.secretLabels = secrets := by
  obtain ⟨secretEntries, hsecrets, h⟩ := try_ok h
  obtain ⟨hintEntries, hhints, h⟩ := try_ok h
  obtain ⟨package, hpackage, h⟩ := try_ok h
  cases h
  obtain ⟨hlabels, hhands⟩ := gather_secretEntry_ok hsecrets
  -- every secret entry is kept, no hint is
  have hkept : secretEntries.filter (fun entry => entry.secrets.isSome) = secretEntries := by
    rw [filter_eq_self]
    intro entry hentry
    obtain ⟨row, slot, hentry, -⟩ := hhands entry hentry
    rw [hentry.secrets_eq]
    rfl
  have hdropped : hintEntries.filter (fun entry => entry.secrets.isSome) = [] := by
    rw [filter_eq_nil_iff]
    intro entry hentry
    rw [gather_hintEntry_ok hhints entry hentry]
    simp
  have hentries : (secretEntries ++ hintEntries).filter (fun entry => entry.secrets.isSome)
      = secretEntries := by
    rw [filter_append, hkept, hdropped, append_nil]
  refine ⟨⟨rfl, rfl, hpackage, ?_, ?_⟩, rfl⟩
  · exact (congrArg (List.map BundleEntry.label) hentries).trans hlabels
  · intro entry hentry
    exact hhands entry (hentries ▸ hentry)

section

variable (h : here.Packed request prepared)

include h

theorem End.Packed.entry_of_label (hlabel : label ∈ prepared.secretLabels) :
    ∃ entry ∈ prepared.bundle.secretEntries, entry.label = label
      ∧ ∃ row slot, here.HandsOver row slot entry := by
  rw [← h.included_eq] at hlabel
  obtain ⟨entry, hentry, heq⟩ := mem_map.mp hlabel
  obtain ⟨row, slot, hhands, -⟩ := h.handsOver entry hentry
  exact ⟨entry, hentry, heq, row, slot, hhands⟩

theorem End.Packed.same_keys (hentry : entry ∈ prepared.bundle.secretEntries)
    (hother : other ∈ prepared.bundle.secretEntries) (hlabel : other.label = entry.label) :
    (other.encPublic, other.signPublic) = (entry.encPublic, entry.signPublic) := by
  obtain ⟨row, slot, hhands, -⟩ := h.handsOver entry hentry
  obtain ⟨row', slot', hhands', -⟩ := h.handsOver other hother
  have hidentity := hhands'.identity
  rw [hlabel, hhands.identity] at hidentity
  cases hidentity
  rw [hhands.encPublic_eq, hhands.signPublic_eq, hhands'.encPublic_eq, hhands'.signPublic_eq]

theorem End.Packed.row_included : prepared.row.included = prepared.secretLabels := by
  refine detailList_formatDetail_included (by decide) fun label hlabel => ?_
  obtain ⟨entry, -, rfl, row, slot, hhands⟩ := h.entry_of_label hlabel
  exact notable_of_valid hhands.valid

end

/-- **What `prepare` leaves**: its row, or nothing at all. -/
theorem prepare_ends :
    Run.Ends (prepare request) here (fun prepared there => here.Packed request prepared
        ∧ (∀ label ∈ prepared.secretLabels, here.ledger.possession label = some .active)
        ∧ here.ledger.tx prepared.bundle.id = none
        ∧ there = { here with ledger := here.ledger.withTx prepared.row })
      fun there => there = here := by
  refine .check_bind rfl fun _ _ => .check_bind rfl fun _ _ => ?_
  refine .look_bind (.check_bind rfl fun _ _ => ?_)
  split
  · exact .hang rfl
  next selected hselected =>
    refine .check_bind rfl fun ⟨secrets, hints⟩ hsecrets => ?_
    refine .check_bind rfl fun prepared hprepared => ?_
    obtain ⟨hpacked, hlabels⟩ := End.pack_ok hprepared
    refine .bind (M := fun _ there => here.ledger.tx prepared.bundle.id = none
      ∧ there = { here with ledger := here.ledger.withTx prepared.row }) ?_ ?_
    · refine onLedger_ends rfl fun _ ledger hrun => ?_
      obtain ⟨hnew, rfl⟩ := Ledger.insertTx_ok hrun
      exact ⟨hnew, rfl⟩
    · rintro _ there ⟨hnew, hthere⟩
      refine .pure ⟨hpacked, ?_, hnew, hthere⟩
      have hexport : here.ledger.selectExport request.rounds request.label request.descendants
          = some (.ok (secrets, hints)) := by
        rw [hselected]
        cases selected with
        | error e => exact absurd hsecrets (by simp [Except.mapError])
        | ok found => rw [Except.ok.inj hsecrets]
      rw [hlabels]
      exact Ledger.selectExport_active hexport

end Packages

end KeyQuorum.Transfer
