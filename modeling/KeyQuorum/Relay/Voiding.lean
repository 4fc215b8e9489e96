/-
  **DOES A VOIDED LICENCE END EVERY KEY IT GAVE OUT?**

  A licence gives out the keys linked to it, and every key that replaced one
  of those through a chain of rotations.  Voiding revokes the linked keys.
  A rotation through the licensing flow links the new key too; a rotation by
  the host does not, and neither does a link made after the rotation.
-/
import KeyQuorum.Relay.Issuance

namespace KeyQuorum.Relay.KeyDesk

open List Foundation

/-! ## §1. What the tables say. -/

def Known (s : KeyDesk) (k : Nat) : Prop := ∃ key, s.keys.find? k = some key

def Revoked (s : KeyDesk) (k : Nat) : Prop := ∃ key, s.keys.find? k = some key ∧ key.revoked = true

def Linked (s : KeyDesk) (k l : Nat) : Prop := ∃ link, s.links.find? k = some link ∧ link.licenceId = l

def Voided (s : KeyDesk) (l : Nat) : Prop := ∃ licence, s.licences.find? l = some licence ∧ licence.voided = true

/-- One key replaced another, as `api_key_events` records it. -/
def Replaced (s : KeyDesk) (k k' : Nat) : Prop :=
  ∃ event ∈ s.events, event.event = .rotated ∧ event.keyId = k ∧ event.relatedKeyId = some k'

/-- The keys a licence gave out: those linked to it, and those that replaced one of them. -/
inductive GaveOut (s : KeyDesk) (l : Nat) : Nat → Prop
  | linked {k : Nat} (h : s.Linked k l) : GaveOut s l k
  | replaced {k k' : Nat} (h : s.Replaced k k') (before : GaveOut s l k') : GaveOut s l k

/-- A key that replaced a linked key is linked, keys of a voided licence are revoked, and links and
rotations are of keys that have a row. -/
structure Sound (s : KeyDesk) : Prop where
  inherits : ∀ k k' l, s.Replaced k k' → s.Linked k' l → s.Linked k l
  ended : ∀ k l, s.Voided l → s.Linked k l → s.Revoked k
  rotated : ∀ k k', s.Replaced k k' → s.Known k ∧ s.Known k'
  linked : ∀ k l, s.Linked k l → s.Known k

theorem Sound.gaveOut {s : KeyDesk} (h : s.Sound) (hgave : s.GaveOut l k) : s.Linked k l := by
  induction hgave with
  | linked hlinked => exact hlinked
  | replaced hreplaced _ ih => exact h.inherits _ _ _ hreplaced ih

theorem authenticate_revoked [Crypto] {s : KeyDesk} (h : s.Revoked k) (env : RelayEnv) (token : String)
    (scope : ApiKeyScope) : s.authenticate env token scope ≠ .ok k := by
  intro hauth
  obtain ⟨hash, -, hauth⟩ := try_ok hauth
  split at hauth
  next => cases hauth
  next key hfound =>
    obtain ⟨hlive, hauth⟩ := else_ok hauth
    obtain ⟨-, hauth⟩ := else_ok hauth
    obtain ⟨-, hauth⟩ := else_ok hauth
    -- the row that authenticated is the row of the id
    have hid : key.id = k := Except.ok.inj hauth
    obtain ⟨row, hrow, hrevoked⟩ := h
    have hsame : s.keys.find? key.id = some key := Table.find?_of_mem (mem_of_find?_eq_some hfound)
    rw [hid, hrow] at hsame
    cases hsame
    exact hlive hrevoked

/-! ## §2. What an operation changes. -/

/-- Keys and revocations stay, and no link is written. -/
structure Keeps (s s' : KeyDesk) : Prop where
  known : ∀ k, s.Known k → s'.Known k
  revoked : ∀ k, s.Revoked k → s'.Revoked k
  links : s'.links = s.links

/-- No licence is voided and no key is replaced. -/
structure Quiet (s s' : KeyDesk) : Prop extends Keeps s s' where
  voided : ∀ l, s'.Voided l ↔ s.Voided l
  replaced : ∀ k k', s'.Replaced k k' ↔ s.Replaced k k'

/-- The key `id` is replaced by the new key `new`. -/
structure Rotates (s s' : KeyDesk) (new id : Nat) : Prop extends Keeps s s' where
  voided : ∀ l, s'.Voided l ↔ s.Voided l
  replaced : ∀ k k', s'.Replaced k k' ↔ s.Replaced k k' ∨ k = new ∧ k' = id
  fresh : ¬ s.Known new
  known_new : s'.Known new
  known_old : s.Known id

/-- The licence `l` is voided, and its keys are revoked. -/
structure Voids (s s' : KeyDesk) (l : Nat) : Prop extends Keeps s s' where
  voided : ∀ m, s'.Voided m ↔ s.Voided m ∨ m = l
  replaced : ∀ k k', s'.Replaced k k' ↔ s.Replaced k k'
  ended : ∀ k, s.Linked k l → s'.Revoked k

variable {s s' : KeyDesk} {env : RelayEnv} {new id k l : Nat}

theorem Keeps.of_eq (hkeys : s'.keys = s.keys) (hlinks : s'.links = s.links) : Keeps s s' := by
  refine ⟨fun k hk => ?_, fun k hk => ?_, hlinks⟩
  · simpa only [Known, hkeys] using hk
  · simpa only [Revoked, hkeys] using hk

theorem Keeps.trans (h : Keeps s s') (h' : Keeps s' s'') : Keeps s s'' where
  known k hk := h'.known k (h.known k hk)
  revoked k hk := h'.revoked k (h.revoked k hk)
  links := h'.links.trans h.links

theorem Quiet.refl (s : KeyDesk) : Quiet s s := ⟨.of_eq rfl rfl, fun _ => .rfl, fun _ _ => .rfl⟩

theorem Quiet.trans (h : Quiet s s') (h' : Quiet s' s'') : Quiet s s'' where
  toKeeps := h.toKeeps.trans h'.toKeeps
  voided l := (h'.voided l).trans (h.voided l)
  replaced k k' := (h'.replaced k k').trans (h.replaced k k')

theorem Rotates.quiet (h : Rotates s s' new id) (h' : Quiet s' s'') : Rotates s s'' new id where
  toKeeps := h.toKeeps.trans h'.toKeeps
  voided l := (h'.voided l).trans (h.voided l)
  replaced k k' := (h'.replaced k k').trans (h.replaced k k')
  fresh := h.fresh
  known_new := h'.known new h.known_new
  known_old := h.known_old

theorem linked_congr (h : s'.links = s.links) : s'.Linked k l ↔ s.Linked k l := by
  unfold Linked
  rw [h]

theorem Keeps.linked (h : Keeps s s') (k l : Nat) : s'.Linked k l ↔ s.Linked k l ∨ False :=
  (linked_congr h.links).trans (iff_of_eq (or_false _)).symm

/-! ## §3. Soundness is kept. -/

/-- **Soundness is kept** by whatever adds the rotations `R`, the links `L` and the voided licences
`V`, if those are sound among themselves and with what was there. -/
theorem Sound.grows (h : s.Sound) {R L : Nat → Nat → Prop} {V : Nat → Prop}
    (hknown : ∀ k, s.Known k → s'.Known k) (hrevoked : ∀ k, s.Revoked k → s'.Revoked k)
    (hreplaced : ∀ k k', s'.Replaced k k' → s.Replaced k k' ∨ R k k')
    (hlinked : ∀ k l, s'.Linked k l ↔ s.Linked k l ∨ L k l)
    (hvoided : ∀ l, s'.Voided l → s.Voided l ∨ V l)
    (hR : ∀ k k', R k k' → s'.Known k ∧ s'.Known k' ∧ ∀ l, s'.Linked k' l → s'.Linked k l)
    (hL : ∀ k l, L k l → s'.Known k ∧ ¬ s'.Voided l ∧ ∀ k', ¬ s.Replaced k' k)
    (hV : ∀ k l, V l → s.Linked k l → s'.Revoked k) : s'.Sound where
  inherits k k' l hrep hlink := by
    rcases hreplaced k k' hrep with hold | hnew
    · rcases (hlinked k' l).mp hlink with hl | hl
      · exact (hlinked k l).mpr (.inl (h.inherits k k' l hold hl))
      · exact absurd hold ((hL k' l hl).2.2 k)
    · exact (hR k k' hnew).2.2 l hlink
  ended k l hvoid hlink := by
    rcases (hlinked k l).mp hlink with hl | hl
    · rcases hvoided l hvoid with hold | hnew
      · exact hrevoked k (h.ended k l hold hl)
      · exact hV k l hnew hl
    · exact absurd hvoid (hL k l hl).2.1
  rotated k k' hrep := by
    rcases hreplaced k k' hrep with hold | hnew
    · exact (h.rotated k k' hold).imp (hknown k) (hknown k')
    · exact ⟨(hR k k' hnew).1, (hR k k' hnew).2.1⟩
  linked k l hlink := by
    rcases (hlinked k l).mp hlink with hl | hl
    · exact hknown k (h.linked k l hl)
    · exact (hL k l hl).1

theorem Sound.voids (h : s.Sound) (hvoids : Voids s s' l) : s'.Sound :=
  h.grows (R := fun _ _ => False) hvoids.known hvoids.revoked
    (fun k k' hr => .inl ((hvoids.replaced k k').mp hr)) hvoids.linked (fun m => (hvoids.voided m).mp)
    nofun nofun fun k _ hm hlink => hvoids.ended k (hm ▸ hlink)

theorem Sound.quiet (h : s.Sound) (hquiet : Quiet s s') : s'.Sound :=
  h.grows (R := fun _ _ => False) (V := fun _ => False) hquiet.known hquiet.revoked
    (fun k k' hr => .inl ((hquiet.replaced k k').mp hr)) hquiet.linked
    (fun l hv => .inl ((hquiet.voided l).mp hv)) nofun nofun nofun

theorem Sound.rotates (h : s.Sound) (hrotates : Rotates s s' new id) (hfree : s.links.find? id = none) :
    s'.Sound := by
  refine h.grows (V := fun _ => False) hrotates.known hrotates.revoked
    (fun k k' => (hrotates.replaced k k').mp) hrotates.linked
    (fun l hv => .inl ((hrotates.voided l).mp hv)) ?_ nofun nofun
  rintro k k' ⟨rfl, rfl⟩
  refine ⟨hrotates.known_new, hrotates.known k' hrotates.known_old, fun l hlinked => ?_⟩
  obtain ⟨link, hlink, -⟩ := (linked_congr hrotates.links).mp hlinked
  exact absurd (hfree.symm.trans hlink) (by simp)

theorem linked_add {link : KeyLink} (hnew : s.links.find? link.apiKeyId = none) :
    ({ s with links := s.links.add link } : KeyDesk).Linked k l
      ↔ s.Linked k l ∨ k = link.apiKeyId ∧ link.licenceId = l :=
  Table.exists_find?_add hnew

theorem Sound.link (h : s.Sound) {link : KeyLink} (hnew : s.links.find? link.apiKeyId = none)
    (hknown : s.Known link.apiKeyId) (hlast : ∀ k, ¬ s.Replaced k link.apiKeyId)
    (hactive : ¬ s.Voided link.licenceId) : ({ s with links := s.links.add link } : KeyDesk).Sound := by
  refine h.grows (R := fun _ _ => False) (V := fun _ => False) (fun _ hk => hk) (fun _ hk => hk)
    (fun _ _ => .inl) (fun _ _ => linked_add hnew) (fun _ => .inl) nofun ?_ nofun
  rintro k l ⟨rfl, rfl⟩
  exact ⟨hknown, hactive, hlast⟩

theorem Sound.rotates_link (h : s.Sound) (hrotates : Rotates s s' new id) {link : KeyLink}
    (hkey : link.apiKeyId = new) (hlinked : s.Linked id link.licenceId) (hactive : ¬ s.Voided link.licenceId)
    (hnew : s'.links.find? link.apiKeyId = none) :
    ({ s' with links := s'.links.add link } : KeyDesk).Sound := by
  subst hkey
  have hlinks : ∀ k l, ({ s' with links := s'.links.add link } : KeyDesk).Linked k l
      ↔ s.Linked k l ∨ k = link.apiKeyId ∧ link.licenceId = l := by
    intro k l
    rw [linked_add hnew, linked_congr hrotates.links]
  refine h.grows (V := fun _ => False) hrotates.known hrotates.revoked
    (fun k k' => (hrotates.replaced k k').mp) hlinks (fun l hv => .inl ((hrotates.voided l).mp hv))
    ?_ ?_ nofun
  · rintro k k' ⟨rfl, rfl⟩
    refine ⟨hrotates.known_new, hrotates.known k' hrotates.known_old, fun l hlink => ?_⟩
    rw [hlinks] at hlink ⊢
    rcases hlink with ⟨found, hfound, hl⟩ | ⟨rfl, -⟩
    · obtain ⟨mine, hmine, hl'⟩ := hlinked
      obtain rfl := Option.mem_unique hfound hmine
      exact .inr ⟨rfl, hl'.symm.trans hl⟩
    · exact absurd hrotates.known_old hrotates.fresh
  · rintro k l ⟨rfl, rfl⟩
    refine ⟨hrotates.known_new, fun hv => hactive ((hrotates.voided _).mp hv), fun k' hold => ?_⟩
    -- nothing rotated away from a key that did not exist
    exact hrotates.fresh (h.rotated k' link.apiKeyId hold).2

/-! ## §4. What the statements change. -/

variable {key created : ApiKey} {licence : Licence} {expiresAt : Option Int} {old : OldKey}

theorem quiet_addKey (hnew : s.keys.find? key.id = none) :
    Quiet s { s with keys := s.keys.add key } where
  known _ := fun ⟨row, hrow⟩ => ⟨row, Table.find?_add_of_some hnew hrow⟩
  revoked _ := fun ⟨row, hrow, hrevoked⟩ => ⟨row, Table.find?_add_of_some hnew hrow, hrevoked⟩
  links := rfl
  voided _ := .rfl
  replaced _ _ := .rfl

theorem quiet_putKey {old : ApiKey} (row : ApiKey) (hold : s.keys.find? row.id = some old)
    (hrevoked : old.revoked → row.revoked) : Quiet s { s with keys := s.keys.put row } where
  known _ := fun ⟨_, hfound⟩ => ⟨_, Table.find?_put_of_some hfound⟩
  revoked k := by
    rintro ⟨found, hfound, hlive⟩
    refine ⟨_, Table.find?_put_of_some hfound, ?_⟩
    split
    next hk =>
      subst hk
      obtain rfl := Option.mem_unique hold hfound
      exact hrevoked hlive
    next => exact hlive
  links := rfl
  voided _ := .rfl
  replaced _ _ := .rfl

theorem replaced_recordEvent {event : KeyEvent} : (s.recordEvent event).Replaced k k' ↔ s.Replaced k k'
    ∨ event.event = .rotated ∧ event.keyId = k ∧ event.relatedKeyId = some k' := by
  show (∃ found ∈ s.events ++ [event], _) ↔ _
  simp only [mem_snoc, or_and_right, exists_or, exists_eq_left]
  rfl

theorem quiet_event {event : KeyEvent} (hkind : event.event ≠ .rotated) : Quiet s (s.recordEvent event) :=
  ⟨.of_eq rfl rfl, fun _ => .rfl,
    fun _ _ => replaced_recordEvent.trans (or_iff_left fun h => hkind h.1)⟩

theorem quiet_addLicence (hnew : s.licences.find? licence.id = none)
    (hlive : licence.voided = false) : Quiet s { s with licences := s.licences.add licence } := by
  refine ⟨.of_eq rfl rfl, fun l => (Table.exists_find?_add hnew).trans ?_, fun _ _ => .rfl⟩
  simp [Voided, hlive]

theorem quiet_putLicence {old : Licence} (hold : s.licences.find? licence.id = some old)
    (hvoided : licence.voided = old.voided) : Quiet s { s with licences := s.licences.put licence } := by
  refine ⟨.of_eq rfl rfl, fun l => (Table.exists_find?_put hold).trans ?_, fun _ _ => .rfl⟩
  split
  next hl => simp [Voided, hl, hold, hvoided]
  next => rfl

/-! ## §5. What the functions change. -/

theorem info_ok (h : s.info id = .ok key) : s.keys.find? id = some key ∧ key.id = id :=
  ⟨okOr_ok h, (Table.find?_some (okOr_ok h)).2⟩

theorem insert_ok {new : NewApiKey} (h : s.insert env new = .ok (key, s')) :
    Quiet s s' ∧ ¬ s.Known key.id ∧ s'.Known key.id := by
  obtain ⟨fingerprint, -, h⟩ := try_ok h
  obtain ⟨expiresAt, -, h⟩ := try_ok h
  obtain ⟨-, h⟩ := else_ok h
  cases h
  have hnew : s.keys.find? (s.newKey env new fingerprint expiresAt).id = none := by
    rw [Table.find?_eq_none]
    intro hmem
    exact absurd (lt_freshId hmem) (Nat.lt_irrefl _)
  refine ⟨quiet_addKey hnew, ?_, _, (Table.find?_add hnew).trans (if_pos rfl)⟩
  intro ⟨row, hrow⟩
  exact absurd (hnew.symm.trans hrow) (by simp)

theorem create_ok {new : NewApiKey} (h : s.create env new = .ok (key, s')) :
    Quiet s s' ∧ ¬ s.Known key.id ∧ s'.Known key.id := by
  obtain ⟨⟨made, mid⟩, hinsert, h⟩ := try_ok h
  cases h
  obtain ⟨hquiet, hfresh, hknown⟩ := insert_ok hinsert
  exact ⟨hquiet.trans (quiet_event (by simp)), hfresh, hknown⟩

theorem revokeBy_ok {actor : String} (h : s.revokeBy id actor = .ok s') : Quiet s s' ∧ s'.Revoked id := by
  unfold revokeBy at h
  split at h
  next => cases h
  next key hkey =>
    have hid : key.id = id := (Table.find?_some hkey).2
    split at h
    next hrevoked =>
      cases h
      exact ⟨.refl s, key, hkey, hrevoked⟩
    next =>
      cases h
      have hold : s.keys.find? ({ key with revoked := true } : ApiKey).id = some key := by
        show s.keys.find? key.id = some key
        rw [hid]
        exact hkey
      have hput := quiet_putKey { key with revoked := true } hold fun _ => rfl
      refine ⟨hput.trans (quiet_event (by simp)), { key with revoked := true }, ?_, rfl⟩
      show (s.keys.put _).find? id = _
      exact Table.find?_put_self hkey hid

theorem setExpiry_ok (h : s.setExpiry id expiresAt = .ok s') : Quiet s s' := by
  obtain ⟨key, hkey, h⟩ := try_ok h
  cases h
  obtain ⟨hfound, rfl⟩ := info_ok hkey
  exact quiet_putKey { key with expiresAt } hfound fun h => h

theorem keepEnd_ok (h : s.keepEnd id expiresAt = .ok s') : Quiet s s' := by
  unfold keepEnd at h
  split at h
  next => exact setExpiry_ok h
  next =>
    cases h
    exact .refl s

theorem endOld_ok (h : s.endOld env id old = .ok s') : Quiet s s' := by
  unfold endOld at h
  split at h
  next => exact (revokeBy_ok h).1
  next =>
    obtain ⟨-, h⟩ := else_ok h
    obtain ⟨limit, -, h⟩ := try_ok h
    obtain ⟨key, -, h⟩ := try_ok h
    exact setExpiry_ok h

theorem rotateWith_ok (h : s.rotateWith env id old = .ok (created, s')) :
    Rotates s s' created.id id := by
  obtain ⟨key, hkey, h⟩ := try_ok h
  obtain ⟨-, h⟩ := else_ok h
  obtain ⟨⟨made, s₁⟩, hinsert, h⟩ := try_ok h
  obtain ⟨s₂, hkeep, h⟩ := try_ok h
  obtain ⟨s₃, hend, h⟩ := try_ok h
  obtain ⟨found, hfound, h⟩ := try_ok h
  obtain ⟨rfl, rfl⟩ := Prod.mk.inj (Except.ok.inj h)
  obtain ⟨hquiet, hfresh, hknown⟩ := insert_ok hinsert
  have hafter : Quiet s₁ s₃ := (keepEnd_ok hkeep).trans (endOld_ok hend)
  have hall : Quiet s s₃ := hquiet.trans hafter
  have hid : found.id = made.id := (info_ok hfound).2
  rw [hid]
  refine ⟨hall.toKeeps.trans (.of_eq rfl rfl), hall.voided, fun k k' => ?_, hfresh,
    hafter.known made.id hknown, key, (info_ok hkey).1⟩
  rw [replaced_recordEvent, hall.replaced k k']
  simp [eq_comm]

section Delivery

variable [CharTable]

theorem recordDelivery_ok (h : s.recordDelivery id recipient via = .ok s') : Quiet s s' := by
  obtain ⟨-, h⟩ := else_ok h
  cases h
  exact ⟨.of_eq rfl rfl, fun _ => .rfl, fun _ _ => .rfl⟩

theorem deliverBundle_ok (h : s.deliverBundle env created recipient = .ok (key, s')) :
    Quiet s s' ∧ key = created := by
  obtain ⟨sha256, -, h⟩ := try_ok h
  obtain ⟨mid, hrecord, h⟩ := try_ok h
  cases h
  exact ⟨recordDelivery_ok hrecord, rfl⟩

variable [Crypto] {key : ApiKey}

theorem createAsBundle_ok {new : NewApiKey} (h : s.createAsBundle env new recipient = .ok (key, s')) :
    Quiet s s' ∧ ¬ s.Known key.id ∧ s'.Known key.id := by
  obtain ⟨bound, -, h⟩ := try_ok h
  obtain ⟨⟨made, mid⟩, hcreate, h⟩ := try_ok h
  obtain ⟨hquiet, hfresh, hknown⟩ := create_ok hcreate
  obtain ⟨hdelivered, rfl⟩ := deliverBundle_ok h
  exact ⟨hquiet.trans hdelivered, hfresh, hdelivered.known _ hknown⟩

theorem rotateAsBundle_ok (h : s.rotateAsBundle env id given = .ok (key, s')) :
    Rotates s s' key.id id := by
  obtain ⟨recipient, -, h⟩ := try_ok h
  obtain ⟨⟨made, mid⟩, hrotate, h⟩ := try_ok h
  obtain ⟨hdelivered, rfl⟩ := deliverBundle_ok h
  exact (rotateWith_ok hrotate).quiet hdelivered

theorem rotateAsLetter_ok (h : s.rotateAsLetter env id given graceSeconds = .ok (key, s')) :
    Rotates s s' key.id id := by
  obtain ⟨recipient, -, h⟩ := try_ok h
  obtain ⟨collectable, -, h⟩ := try_ok h
  obtain ⟨-, h⟩ := else_ok h
  obtain ⟨⟨made, mid⟩, hrotate, h⟩ := try_ok h
  obtain ⟨replaced, -, h⟩ := try_ok h
  obtain ⟨letterId, -, h⟩ := try_ok h
  obtain ⟨last, hrecord, h⟩ := try_ok h
  cases h
  exact (rotateWith_ok hrotate).quiet (recordDelivery_ok hrecord)

theorem rotateVia_ok (h : s.rotateVia env id recipient via = .ok (key, s')) :
    Rotates s s' key.id id := by
  cases via with
  | bundle => exact rotateAsBundle_ok h
  | letter => exact rotateAsLetter_ok h

end Delivery

theorem revokeLive_ok {keys revoked : List Nat} (h : revokeLive keys s = .ok (revoked, s')) :
    Quiet s s' ∧ ∀ k ∈ keys, s'.Revoked k := by
  induction keys generalizing s revoked with
  | nil =>
    obtain ⟨-, rfl⟩ := Prod.mk.inj (Except.ok.inj h)
    exact ⟨.refl s, fun k hk => absurd hk not_mem_nil⟩
  | cons key rest ih =>
    obtain ⟨info, hinfo, h⟩ := try_ok h
    split at h
    next hrevoked =>
      obtain ⟨hquiet, hrest⟩ := ih h
      have hkey : s'.Revoked key := hquiet.revoked key ⟨info, (info_ok hinfo).1, hrevoked⟩
      exact ⟨hquiet, forall_mem_cons.mpr ⟨hkey, hrest⟩⟩
    next =>
      obtain ⟨mid, hrevoke, h⟩ := try_ok h
      obtain ⟨⟨others, last⟩, hlast, h⟩ := try_ok h
      obtain ⟨-, rfl⟩ := Prod.mk.inj (Except.ok.inj h)
      obtain ⟨hfirst, hkey⟩ := revokeBy_ok hrevoke
      obtain ⟨hquiet, hrest⟩ := ih hlast
      exact ⟨hfirst.trans hquiet, forall_mem_cons.mpr ⟨hquiet.revoked key hkey, hrest⟩⟩

theorem mem_keysOf : k ∈ s.keysOf l ↔ s.Linked k l := by
  unfold keysOf
  rw [mem_insertionSort, mem_map]
  constructor
  · rintro ⟨link, hlink, rfl⟩
    obtain ⟨hrow, hlicence⟩ := mem_filter.mp hlink
    exact ⟨link, Table.find?_of_mem hrow, by simpa using hlicence⟩
  · rintro ⟨link, hlink, rfl⟩
    obtain ⟨hmem, rfl⟩ := Table.find?_some hlink
    exact ⟨link, mem_filter.mpr ⟨hmem, by simp⟩, rfl⟩

theorem linkKey_ok (h : s.linkKey link = .ok s') :
    s.links.find? link.apiKeyId = none ∧ s' = { s with links := s.links.add link } := by
  obtain ⟨hnone, h⟩ := else_ok h
  exact ⟨by simpa using hnone, (Except.ok.inj h).symm⟩

theorem licence_ok (h : s.licence id = .ok licence) :
    s.licences.find? id = some licence ∧ licence.id = id :=
  ⟨okOr_ok h, (Table.find?_some (okOr_ok h)).2⟩

theorem not_voided_of_active (h : s.licences.find? l = some licence)
    (hactive : licence.active env.now) : ¬ s.Voided l := by
  intro ⟨found, hfound, hvoided⟩
  obtain rfl := Option.mem_unique h hfound
  unfold Licence.active at hactive
  rw [hvoided] at hactive
  cases hactive

theorem secondsRemaining_ok (h : s.secondsRemaining env l = .ok ttl) : ¬ s.Voided l := by
  obtain ⟨current, hcurrent, h⟩ := try_ok h
  obtain ⟨hactive, h⟩ := else_ok h
  exact not_voided_of_active (licence_ok hcurrent).1 (by simpa using hactive)

section Voiding

variable [CharTable]

theorem markVoid_ok (h : s.markVoid l reason = .ok (newly, s')) :
    s'.keys = s.keys ∧ s'.events = s.events ∧ s'.links = s.links ∧ ∀ m, s'.Voided m ↔ s.Voided m ∨ m = l := by
  obtain ⟨-, h⟩ := else_ok h
  split at h
  next => cases h
  next licence hlicence =>
    have hid : licence.id = l := (Table.find?_some hlicence).2
    split at h
    next hvoided =>
      cases h
      refine ⟨rfl, rfl, rfl, fun m => ⟨.inl, ?_⟩⟩
      intro hor
      rcases hor with hm | rfl
      · exact hm
      · exact ⟨licence, hlicence, hvoided⟩
    next =>
      cases h
      let row : Licence := { licence with voided := true, voidReason := trimmed reason }
      have hrow : s.licences.find? row.id = some licence := hid ▸ hlicence
      refine ⟨rfl, rfl, rfl, fun m => (Table.exists_find?_put hrow).trans ?_⟩
      rw [show row.id = l from hid]
      by_cases hm : m = l
      · simp [hm, row]
      · simp [hm, Voided]

theorem voidInner_ok (h : s.voidInner l reason = .ok (voided, s')) :
    Voids s s' l := by
  obtain ⟨⟨newly, marked⟩, hmark, h⟩ := try_ok h
  obtain ⟨⟨revoked, last⟩, hrevoke, h⟩ := try_ok h
  cases h
  obtain ⟨hkeys, hevents, hlinks, hvoided⟩ := markVoid_ok hmark
  obtain ⟨hquiet, hall⟩ := revokeLive_ok hrevoke
  refine ⟨(Keeps.of_eq hkeys hlinks).trans hquiet.toKeeps, fun m => (hquiet.voided m).trans (hvoided m),
    ?_, ?_⟩
  · intro k k'
    rw [hquiet.replaced k k']
    unfold Replaced
    rw [hevents]
  · intro k hlinked
    exact hall k (mem_keysOf.mpr ((linked_congr hlinks).mpr hlinked))

end Voiding

end KeyQuorum.Relay.KeyDesk
