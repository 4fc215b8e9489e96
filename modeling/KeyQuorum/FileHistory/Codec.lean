/-
  **FIELD ENCODERS OF A TRACKED FILE** (`file_history/codec.rs`).

  Strings, 64-bit integers, fixed arrays and their optional forms.  Every
  decode failure surfaces as `invalidTrackedFile`, and an optional field
  has one tag per case, so no value has two encodings: each pair below is
  `Inverts`.
-/
import KeyQuorum.Envelope

namespace KeyQuorum

open Foundation

/-! ## §1. Reporting. -/

/-- `bad`: any failure is reported as a malformed tracked file. -/
def bad {α : Type} (p : Reader Error α) : Reader Error α := fun data =>
  match p data with
  | .ok r => .ok r
  | .error _ => .error .invalidTrackedFile

theorem bad_of_ok (h : p data = .ok r) : bad p data = .ok r := by
  unfold bad
  rw [h]

theorem bad_ok (h : bad p data = .ok r) : p data = .ok r := by
  unfold bad at h
  split at h
  next r' hp => rw [hp, h]
  next => cases h

theorem bad_inverts (h : Inverts enc p) : Inverts enc (bad p) where
  reads := fun ha rest => bad_of_ok (h.reads ha rest)
  writes := fun hd => h.writes (bad_ok hd)

/-! ## §2. Plain fields. -/

def pushStr (value : String) : Except Error Bytes := pushLenPrefixed (utf8Bytes value)

def takeStr : Reader Error String :=
  bad do
    let bytes ← takeLenPrefixed
    Reader.lift (utf8 bytes)

def pushU64 (value : UInt64) : Bytes := u64Bytes value

/-- `take_fixed::<N>`. -/
def takeFixed (n : Nat) : Reader Error (FixedBytes n) := bad (takeArray n)

def takeU64 : Reader Error UInt64 := do
  let bytes ← bad (takeArray 8)
  pure (UInt64.ofNat (ofBe bytes.bytes))

def takeByte : Reader Error UInt8 := bad takeU8

theorem takeFixed_inverts (n : Nat) : Inverts (fun a : FixedBytes n => .ok a.bytes) (takeFixed n) :=
  bad_inverts (takeArray_inverts n)

theorem takeByte_inverts : Inverts (fun b : UInt8 => .ok [b]) takeByte := bad_inverts takeU8_inverts

theorem utf8_utf8Bytes (s : String) : utf8 (utf8Bytes s) = .ok s := by
  unfold utf8
  rw [utf8?_utf8Bytes]

theorem utf8_ok (h : utf8 bytes = .ok s) : bytes = utf8Bytes s := by
  unfold utf8 at h
  split at h
  next s' hs =>
    cases h
    exact (utf8Bytes_of_utf8? hs).symm
  next => cases h

theorem takeStr_inverts : Inverts pushStr takeStr :=
  bad_inverts (takeLenPrefixed_inverts.coded utf8_utf8Bytes utf8_ok)

theorem takeU64_inverts : Inverts (fun x : UInt64 => .ok (pushU64 x)) takeU64 := by
  refine (takeFixed_inverts 8).coded (f := fun x => ⟨u64Bytes x, length_u64Bytes x⟩)
    (g := fun bytes => .ok (UInt64.ofNat (ofBe bytes.bytes))) (fun x => ?_) fun {bytes x} h => ?_
  · rw [ofBe_u64Bytes]
  · cases h
    have hlt := ofBe_lt bytes.bytes
    have hback := beBytes_ofBe bytes.bytes
    rw [bytes.length_eq] at hlt hback
    refine FixedBytes.ext_bytes ?_
    show bytes.bytes = beBytes 8 (UInt64.ofNat _).toNat
    rw [UInt64.toNat_ofNat_of_lt' (by simpa using hlt), hback]

/-! ## §3. Optional fields. -/

/-- A tag byte, then the value when there is one: the layout of every `push_opt_*`. -/
def pushOpt {α : Type} (enc : α → Except Error Bytes) : Option α → Except Error Bytes
  | some a => do
      let bytes ← enc a
      .ok (1 :: bytes)
  | none => .ok [0]

/-- The layout of every `take_opt_*`: any other tag is malformed. -/
def takeOpt {α : Type} (dec : Reader Error α) : Reader Error (Option α) := do
  let tag ← takeByte
  if tag = 0 then pure none
  else if tag = 1 then do
    let a ← dec
    pure (some a)
  else Reader.fail .invalidTrackedFile

theorem takeOpt_inverts (h : Inverts enc dec) : Inverts (pushOpt enc) (takeOpt dec) where
  reads := by
    intro a bs ha
    cases a with
    | none =>
      cases ha
      exact (takeByte_inverts.reads rfl).bind_last (.pure none)
    | some a =>
      obtain ⟨bytes, hb, ha⟩ := try_ok ha
      cases ha
      exact (takeByte_inverts.reads (a := 1) rfl).bind ((h.reads hb).bind_last (.pure _))
  writes := by
    intro data a rest hd
    obtain ⟨tag, mid, ht, hcase⟩ := Reader.bind_ok hd
    obtain ⟨_, ⟨⟩, rfl⟩ := takeByte_inverts.writes ht
    split at hcase
    next h0 =>
      obtain ⟨rfl, rfl⟩ := Reader.pure_ok hcase
      exact ⟨[0], rfl, by rw [h0]⟩
    next =>
      split at hcase
      next h1 =>
        obtain ⟨a, mid', ha, hlast⟩ := Reader.bind_ok hcase
        obtain ⟨rfl, rfl⟩ := Reader.pure_ok hlast
        obtain ⟨bytes, hb, rfl⟩ := h.writes ha
        exact ⟨1 :: bytes, by simp [pushOpt, hb], by rw [h1]; rfl⟩
      next => exact absurd hcase (by simp [Reader.fail])

def pushOptArray {n : Nat} (value : Option (FixedBytes n)) : Except Error Bytes :=
  pushOpt (fun a => .ok a.bytes) value

/-- `take_opt_array::<N>`. -/
def takeOptArray (n : Nat) : Reader Error (Option (FixedBytes n)) := takeOpt (takeFixed n)

def pushOptStr (value : Option String) : Except Error Bytes := pushOpt pushStr value

def takeOptStr : Reader Error (Option String) := takeOpt takeStr

def pushOptU64 (value : Option UInt64) : Except Error Bytes := pushOpt (fun x => .ok (pushU64 x)) value

def takeOptU64 : Reader Error (Option UInt64) := takeOpt takeU64

theorem takeOptArray_inverts (n : Nat) : Inverts pushOptArray (takeOptArray n) :=
  takeOpt_inverts (takeFixed_inverts n)

theorem takeOptStr_inverts : Inverts pushOptStr takeOptStr := takeOpt_inverts takeStr_inverts

theorem takeOptU64_inverts : Inverts pushOptU64 takeOptU64 := takeOpt_inverts takeU64_inverts

/-! ## §4. Counted lists. -/

/-- A count of `w` bytes, then the values: every list of the container. -/
def pushList {α : Type} (w : Nat) (enc : α → Except Error Bytes) (values : List α) :
    Except Error Bytes := do
  let count ← pushCount w values.length
  let body ← writeAll enc values
  .ok (count ++ body)

/-- Read a count of `w` bytes, then that many values. -/
def takeList {α : Type} (w : Nat) (dec : Reader Error α) : Reader Error (List α) := do
  let count ← bad (takeCount w)
  dec.readN count

theorem takeList_inverts (w : Nat) (h : Inverts enc dec) :
    Inverts (pushList w enc) (takeList w dec) where
  reads := by
    intro l bs hl
    obtain ⟨count, hc, hl⟩ := try_ok hl
    obtain ⟨body, hb, hl⟩ := try_ok hl
    cases hl
    exact ((bad_inverts (takeCount_inverts w)).reads hc).bind (h.reads_list hb)
  writes := by
    intro data l rest hd
    obtain ⟨n, mid, hn, hrest⟩ := Reader.bind_ok hd
    obtain ⟨count, hc, rfl⟩ := (bad_inverts (takeCount_inverts w)).writes hn
    obtain ⟨rfl, body, hb, rfl⟩ := h.writes_list hrest
    exact ⟨count ++ body, by simp [pushList, hc, hb], by rw [List.append_assoc]⟩

/-! ## §5. What can be written. -/

/-- The text fits a `u16` length. -/
def FitsField (value : String) : Prop := (utf8Bytes value).length < 256 ^ 2

instance (value : String) : Decidable (FitsField value) :=
  inferInstanceAs (Decidable (_ < _))

theorem fitsField_of_length (h : value.length < 16384) : FitsField value := by
  have hle := length_utf8Bytes_le value
  unfold FitsField
  omega

theorem pushStr_isOk_iff : (∃ bytes, pushStr value = .ok bytes) ↔ FitsField value := by
  unfold pushStr pushLenPrefixed pushCount FitsField
  split
  next h => exact ⟨fun _ => h, fun _ => ⟨_, rfl⟩⟩
  next h => exact ⟨fun ⟨_, hbytes⟩ => absurd hbytes (by simp), fun h' => absurd h' h⟩

theorem pushOpt_total (h : ∀ a, value = some a → ∃ bytes, enc a = .ok bytes) :
    ∃ bytes, pushOpt enc value = .ok bytes := by
  cases value with
  | none => exact ⟨[0], rfl⟩
  | some a =>
    obtain ⟨bytes, hbytes⟩ := h a rfl
    exact ⟨1 :: bytes, by simp [pushOpt, hbytes]⟩

theorem pushList_total (hcount : values.length < 256 ^ w)
    (h : ∀ a ∈ values, ∃ bytes, enc a = .ok bytes) : ∃ bytes, pushList w enc values = .ok bytes := by
  obtain ⟨body, hbody⟩ := writeAll_total h
  exact ⟨beBytes w values.length ++ body, by simp [pushList, pushCount, hcount, hbody]⟩

end KeyQuorum
