/-
  **WHO GETS WHAT WHEN A MEMBER IS REMOVED** (`plan_remove_member` and
  `supervisor_pubs_for` in `private_bridge.rs`).

  The packages of a plan go to the parties of the old roster, one to each.
  Who is on the new roster hears of the next generation, everyone else that
  the bridge is destroyed; with fewer than two members left everyone does.
  A removed member whose child stays is on the new roster, as a supervisor.
-/
import KeyQuorum.PrivateBridge.Notice

namespace KeyQuorum.PrivateBridge

open List Foundation Letter

/-! ## §1. The new roster. -/

variable {removedLabel label : String} {parties : List Party} {members : Members}

theorem mem_remainingMembers : label ∈ (remainingMembers parties removedLabel).keys
    ↔ ∃ party ∈ parties, (party.role = .member ∧ party.label ≠ removedLabel) ∧ label = party.label := by
  apply SortedMap.mem_keys_foldl
  rintro members ⟨name, key, signing | -, isLocal⟩ label
  · dsimp only
    split
    next heq => exact (or_iff_right fun h => h.1.2 heq).symm
    next hne =>
      exact SortedMap.mem_keys_insertEntry.trans (or_congr_left (and_iff_right ⟨rfl, hne⟩).symm)
  · exact (or_iff_right fun h => nomatch h.1.1).symm

theorem mem_supervisorPubsFor : label ∈ (supervisorPubsFor members parties).keys
    ↔ ∃ party ∈ parties, (party.label ∉ members.keys
        ∧ ∃ child ∈ members.keys, parentNodeLabel child = some party.label) ∧ label = party.label := by
  apply SortedMap.mem_keys_foldl
  intro supervisors party label
  have hneeded : (members.keys.filterMap fun child => (parentNodeLabel child).filter fun parent =>
      !members.contains parent).contains party.label ↔ party.label ∉ members.keys
        ∧ ∃ child ∈ members.keys, parentNodeLabel child = some party.label := by
    rw [← SortedMap.contains_iff, contains_iff_mem, mem_filterMap]
    simp [Option.filter_eq_some_iff, ← exists_and_left, and_comm, and_left_comm, and_assoc]
  rw [← hneeded]
  split
  next h => exact SortedMap.mem_keys_insertEntry.trans (or_congr_left (and_iff_right h).symm)
  next h => exact (or_iff_right fun hboth => h hboth.1).symm

/-- Who is on the new roster keeps its key. -/
theorem remainingMembers_keys : ∀ entry ∈ (remainingMembers parties removedLabel).entries,
    ∃ party ∈ parties, entry.1 = party.label ∧ entry.2.encryption = party.encryption := by
  refine SortedMap.forall_entries_foldl fun members party hparty entry hentry => ?_
  split at hentry
  next =>
    split at hentry
    next => exact .inr hentry
    next => exact (SortedMap.mem_insertEntry hentry).imp_left fun h => ⟨party, hparty, by rw [h], by rw [h]⟩
  next => exact .inr hentry

theorem supervisorPubsFor_keys : ∀ entry ∈ (supervisorPubsFor members parties).entries,
    ∃ party ∈ parties, entry.1 = party.label ∧ entry.2 = party.encryption := by
  refine SortedMap.forall_entries_foldl fun supervisors party hparty entry hentry => ?_
  split at hentry
  next => exact (SortedMap.mem_insertEntry hentry).imp_left fun h => ⟨party, hparty, by rw [h], by rw [h]⟩
  next => exact .inr hentry

theorem not_on_roster_iff {supervisors : Supervisors} :
    !(members.contains label || supervisors.contains label) ↔ label ∉ members.keys ++ supervisors.keys := by
  simp [← SortedMap.contains_iff]

/-- The labels of the new roster, and those of the parties it drops. -/
theorem roster_perm (hkeyed : (parties.map Party.label).Nodup) :
    let members := remainingMembers parties removedLabel
    let supervisors := supervisorPubsFor members parties
    (members.keys ++ supervisors.keys ++ (parties.filter fun party =>
      !(members.contains party.label || supervisors.contains party.label)).map Party.label).Perm
        (parties.map Party.label) := by
  intro members supervisors
  have hnodup : (members.keys ++ supervisors.keys).Nodup := by
    refine nodup_append'.mpr ⟨members.keys_nodup, supervisors.keys_nodup, fun label hmember h => ?_⟩
    obtain ⟨party, -, ⟨hnot, -⟩, rfl⟩ := mem_supervisorPubsFor.mp h
    exact hnot hmember
  have hsub : members.keys ++ supervisors.keys ⊆ parties.map Party.label := by
    intro label hlabel
    rcases mem_append.mp hlabel with h | h
    · obtain ⟨party, hparty, -, rfl⟩ := mem_remainingMembers.mp h
      exact mem_map_of_mem hparty
    · obtain ⟨party, hparty, -, rfl⟩ := mem_supervisorPubsFor.mp h
      exact mem_map_of_mem hparty
  have hdropped : (parties.filter fun party => !(members.contains party.label
      || supervisors.contains party.label)).map Party.label
        = (parties.map Party.label).diff (members.keys ++ supervisors.keys) := by
    rw [hkeyed.sdiff_eq_filter, filter_map]
    exact congrArg _ (filter_congr fun party _ => Bool.eq_iff_iff.mpr
      (not_on_roster_iff.trans decide_eq_true_iff.symm))
  rw [hdropped]
  exact subperm_append_diff_self_of_count_le (subperm_ext_iff.mp (subperm_of_subset hnodup hsub))

/-! ## §2. The packages. -/

section Crypto

variable [Crypto] [KeyPairs] [SealedBoxes]

/-- What a package says: the next generation to who is on its roster, with the secret for members alone,
or that the bridge is destroyed. -/
inductive Tells (next : Generation) (secret : Digest) (destroyed : Bool) (fields : PackageFields) : Prop
  | rotation (lives : !destroyed)
      (roster : next = ⟨fields.generation, fields.publicKey, fields.salt, fields.members,
        fields.supervisors⟩)
      (role : fields.recipientLabel ∈ next.members.keys ∧ fields.kind = kindRotate
          ∧ fields.secret.map Prod.snd = some secret
        ∨ fields.recipientLabel ∈ next.supervisors.keys ∧ fields.kind = kindSupervisor
          ∧ fields.secret = none)
  | notice (off : destroyed ∨ fields.recipientLabel ∉ next.members.keys ++ next.supervisors.keys)
      (kind : fields.kind = kindDestroy) (bare : fields.secret = none)

/-- **Every party of the old roster gets one package**, to its key, and the supervisors of the new one are
the parties above a remaining member, the removed one too. -/
theorem planRemoveMember_recipients {draws : Draws} {db : Rosters} {uid localLabel : String}
    {encryptionSk : Digest} {planned : PlannedRemoval}
    (h : planRemoveMember draws db uid removedLabel localLabel encryptionSk = .ok planned) :
    ∃ bridge members supervisors, db.find? uid = some bridge
      ∧ (∀ label, label ∈ members.keys ↔ ∃ party ∈ bridge.summary,
          (party.role = .member ∧ party.label ≠ removedLabel) ∧ label = party.label)
      ∧ (∀ label, label ∈ supervisors.keys ↔ ∃ party ∈ bridge.summary, (party.label ∉ members.keys
          ∧ ∃ child ∈ members.keys, parentNodeLabel child = some party.label) ∧ label = party.label)
      ∧ (planned.destroyed ↔ members.entries.length < 2)
      ∧ ((planned.packages.map DeliveryPackage.fields).map PackageFields.recipientLabel).Perm
          (bridge.parties.rows.map Party.label)
      ∧ ∀ fields ∈ planned.packages.map DeliveryPackage.fields,
          (∃ party ∈ bridge.summary, fields.recipientLabel = party.label
            ∧ fields.recipientPublicKey = party.encryption)
          ∧ Tells ⟨bridge.generation + 1, KeyPairs.signingPublic draws.secret, draws.salt, members,
            supervisors⟩ draws.secret planned.destroyed fields := by
  obtain ⟨bridge, hbridge, h⟩ := try_ok h
  obtain ⟨secret, hsecret, h⟩ := try_ok h
  have hsummary : (bridge.summary.map Party.label).Perm (bridge.parties.rows.map Party.label) :=
    (perm_insertionSort _ _).map _
  refine ⟨bridge, _, _, okOr_ok hbridge, fun _ => mem_remainingMembers, fun _ => mem_supervisorPubsFor, ?_⟩
  dsimp only at h
  split at h
  next hfew =>
    obtain ⟨packages, hpackages, h⟩ := try_ok h
    cases h
    rw [destroyPackages_fields hpackages, map_map]
    refine ⟨iff_of_true rfl hfew, hsummary, fun fields hmem => ?_⟩
    obtain ⟨party, hparty, rfl⟩ := mem_map.mp hmem
    exact ⟨⟨party, hparty, rfl, rfl⟩, .notice (.inl rfl) rfl rfl⟩
  next hmany =>
    obtain ⟨toRoster, hroster, h⟩ := try_ok h
    obtain ⟨toDropped, hdropped, h⟩ := try_ok h
    cases h
    rw [map_append, packagesForRoster_fields hroster, destroyPackages_fields hdropped]
    refine ⟨iff_of_false nofun hmany, ?_, fun fields hmem => ?_⟩
    · simp only [map_append, map_map]
      exact (roster_perm (hsummary.nodup_iff.mpr bridge.parties.keyed)).trans hsummary
    · rcases mem_append.mp hmem with hmem | hmem
      · rcases mem_append.mp hmem with hmem | hmem
        all_goals obtain ⟨entry, hentry, rfl⟩ := mem_map.mp hmem
        · exact ⟨remainingMembers_keys entry hentry,
            .rotation rfl rfl (.inl ⟨mem_map_of_mem hentry, rfl, rfl⟩)⟩
        · exact ⟨supervisorPubsFor_keys entry hentry,
            .rotation rfl rfl (.inr ⟨mem_map_of_mem hentry, rfl, rfl⟩)⟩
      · obtain ⟨party, hparty, rfl⟩ := mem_map.mp hmem
        obtain ⟨hin, hoff⟩ := mem_filter.mp hparty
        exact ⟨⟨party, hin, rfl, rfl⟩, .notice (.inr (not_on_roster_iff.mp hoff)) rfl rfl⟩

end Crypto

namespace Sample

attribute [local instance] Crypto.toy KeyPairs.toy SealedBoxes.toy

theorem removal_recipients : ∃ planned bridge, removal = .ok planned
    ∧ (founded "A" 11).find? "u" = some bridge
    ∧ ((planned.packages.map DeliveryPackage.fields).map PackageFields.recipientLabel).Perm
        (bridge.parties.rows.map Party.label) := by
  obtain ⟨planned, hplan, -⟩ : ∃ planned, removal = .ok planned ∧ planned.uid = "u" := by decide +kernel
  obtain ⟨bridge, _, _, hbridge, -, -, -, hperm, -⟩ := planRemoveMember_recipients hplan
  exact ⟨planned, bridge, hplan, hbridge, hperm⟩

/-- A bridge of `M.S` and its children, at the first child. -/
def family : Rosters :=
  (applyDecoded { invitation "M.S.1" 12 with members := SortedMap.ofEntries [("M.S", ⟨key 11, key 21⟩),
    ("M.S.1", ⟨key 12, key 22⟩), ("M.S.2", ⟨key 13, key 23⟩)] } 0 Table.empty).2

/-- **The removed `M.S` gets no destroy notice**: it is above the members that stay. -/
theorem removed_parent_supervises :
    ∃ planned, planRemoveMember (draws 50) family "u" "M.S" "M.S.1" (key 12) = .ok planned
      ∧ ∃ package ∈ planned.packages,
        package.fields.recipientLabel = "M.S" ∧ package.fields.kind = kindSupervisor := by
  decide +kernel

end Sample

end KeyQuorum.PrivateBridge
