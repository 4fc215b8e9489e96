/-
  **LENGTH-PREFIXED FIELDS** (`envelope.rs`, the helpers every encoder uses).

  Writers return the bytes they append; readers consume a prefix.  Each
  writer/reader pair is `Inverts`: it round-trips, and it accepts exactly
  what it writes.
-/
import KeyQuorum.Platform

namespace KeyQuorum

open List Foundation

/-! ## §1. Writers. -/

/-- A big-endian unsigned integer of `w` bytes, if the value fits (`uN::try_from(len)`). -/
def pushCount (w n : Nat) : Except Error Bytes :=
  if n < 256 ^ w then .ok (beBytes w n) else .error .bundleFieldTooLarge

/-- `push_len_prefixed`: a `u16` length, then the bytes. -/
def pushLenPrefixed (bytes : Bytes) : Except Error Bytes := do
  let len ← pushCount 2 bytes.length
  .ok (len ++ bytes)

/-- `push_len_prefixed_u32`: a `u32` length, then the bytes. -/
def pushLenPrefixedU32 (bytes : Bytes) : Except Error Bytes := do
  let len ← pushCount 4 bytes.length
  .ok (len ++ bytes)

/-- `hash_len_prefixed`: what the hasher is fed, the same prefix `push_len_prefixed` writes. -/
def hashLenPrefixed (bytes : Bytes) : Except Error Bytes := do
  let len ← pushCount 2 bytes.length
  .ok (len ++ bytes)

/-! ## §2. Readers. -/

def takeU8 : Reader Error UInt8
  | [] => .error .invalidBridgePackage
  | b :: rest => .ok (b, rest)

def takeN (n : Nat) : Reader Error Bytes := fun data =>
  if data.length < n then .error .invalidBridgePackage
  else .ok (data.take n, data.drop n)

/-- `take_array::<N>`. The length of the slice `take_n` returns is `N`, so `try_into` succeeds. -/
def takeArray (n : Nat) : Reader Error (FixedBytes n) := fun data =>
  if h : data.length < n then .error .invalidBridgePackage
  else .ok (⟨data.take n, by rw [length_take]; omega⟩, data.drop n)

/-- An integer of `w` bytes: `u16`/`u32::from_be_bytes(take_array(data)?)`. -/
def takeCount (w : Nat) : Reader Error Nat := do
  let bytes ← takeArray w
  pure (ofBe bytes.bytes)

def takeU32 : Reader Error Nat := takeCount 4

def takeLenPrefixed : Reader Error Bytes := do
  let len ← takeCount 2
  takeN len

def takeLenPrefixedU32 : Reader Error Bytes := do
  let len ← takeU32
  takeN len

def utf8 (bytes : Bytes) : Except Error String :=
  match utf8? bytes with
  | some s => .ok s
  | none => .error .invalidBridgePackage

/-- `utf8(take_len_prefixed(data)?)`. -/
def takeText : Reader Error String := do
  let bytes ← takeLenPrefixed
  Reader.lift (utf8 bytes)

/-! ## §3. Each pair is inverse. -/

theorem takeU8_inverts : Inverts (fun b : UInt8 => .ok [b]) takeU8 where
  reads := by
    rintro b _ ⟨⟩ rest
    rfl
  writes := by
    intro data b rest h
    cases data with
    | nil => exact absurd h (by simp [takeU8])
    | cons c cs =>
      simp only [takeU8, Except.ok.injEq, Prod.mk.injEq] at h
      exact ⟨[b], rfl, by rw [h.1, h.2]; rfl⟩

theorem takeArray_inverts (n : Nat) : Inverts (fun a : FixedBytes n => .ok a.bytes) (takeArray n) where
  reads := by
    rintro a _ ⟨⟩ rest
    have hlen : ¬ (a.bytes ++ rest).length < n := by simp
    simp only [takeArray, dif_neg hlen, Except.ok.injEq, Prod.mk.injEq]
    refine ⟨FixedBytes.ext_bytes ?_, ?_⟩
    · simp
    · simp
  writes := by
    intro data a rest h
    unfold takeArray at h
    split at h
    next => cases h
    next hlen =>
      obtain ⟨rfl, rfl⟩ := h
      exact ⟨_, rfl, (take_append_drop n data).symm⟩

theorem pushCount_ok (h : pushCount w n = .ok bs) : n < 256 ^ w ∧ bs = beBytes w n := by
  obtain ⟨hlt, h⟩ := then_ok h
  injection h with h
  exact ⟨hlt, h.symm⟩

theorem pushCount_of_lt (h : n < 256 ^ w) : pushCount w n = .ok (beBytes w n) := if_pos h

theorem takeCount_inverts (w : Nat) : Inverts (pushCount w) (takeCount w) where
  reads := by
    intro n bs h
    obtain ⟨hlt, rfl⟩ := pushCount_ok h
    have hread := (takeArray_inverts w).reads (a := ⟨beBytes w n, length_beBytes w n⟩) rfl
    refine hread.bind_last ?_
    rw [ofBe_beBytes_of_lt hlt]
    exact .pure n
  writes := by
    intro data n rest h
    obtain ⟨a, mid, ha, h⟩ := Reader.bind_ok h
    obtain ⟨rfl, rfl⟩ := Reader.pure_ok h
    obtain ⟨_, ⟨⟩, rfl⟩ := (takeArray_inverts w).writes ha
    have hlt := ofBe_lt a.bytes
    rw [a.length_eq] at hlt
    refine ⟨a.bytes, ?_, rfl⟩
    rw [pushCount_of_lt hlt]
    have hback := beBytes_ofBe a.bytes
    rw [a.length_eq] at hback
    rw [hback]

theorem takeN_reads (bs : Bytes) : Reads (takeN bs.length) bs bs := by
  intro rest
  simp [takeN]

theorem takeN_ok (h : takeN n data = .ok (bs, rest)) : bs.length = n ∧ data = bs ++ rest := by
  obtain ⟨hlen, h⟩ := else_ok h
  obtain ⟨rfl, rfl⟩ := h
  exact ⟨by rw [length_take]; omega, (take_append_drop n data).symm⟩

theorem lenPrefixed_inverts (w : Nat) :
    Inverts (fun bytes : Bytes => do
      let len ← pushCount w bytes.length
      Except.ok (len ++ bytes))
      (do
        let len ← takeCount w
        takeN len) where
  reads := by
    intro bytes bs h
    obtain ⟨len, hlen, h⟩ := try_ok h
    cases h
    exact ((takeCount_inverts w).reads hlen).bind (takeN_reads bytes)
  writes := by
    intro data bytes rest h
    obtain ⟨n, mid, hn, h⟩ := Reader.bind_ok h
    obtain ⟨rfl, rfl⟩ := takeN_ok h
    obtain ⟨len, hlen, rfl⟩ := (takeCount_inverts w).writes hn
    refine ⟨len ++ bytes, ?_, by rw [append_assoc]⟩
    simp [hlen]

theorem takeLenPrefixed_inverts : Inverts pushLenPrefixed takeLenPrefixed := lenPrefixed_inverts 2

theorem takeLenPrefixedU32_inverts : Inverts pushLenPrefixedU32 takeLenPrefixedU32 :=
  lenPrefixed_inverts 4

theorem takeText_reads (h : pushLenPrefixed (utf8Bytes text) = .ok bs) : Reads takeText bs text := by
  refine (takeLenPrefixed_inverts.reads h).bind_last (.lift ?_)
  rw [utf8, utf8?_utf8Bytes]

end KeyQuorum
