/-
  **BYTE STRINGS** — the vocabulary every wire format is written in.

  Three kinds of field occur in a length-prefixed format, and each gets its
  two-way law here, once.
-/
import Mathlib.Data.List.Induction
import Mathlib.Data.List.Nodup
import Mathlib.Data.String.Basic
import Mathlib.Tactic.Ring
import Mathlib.Tactic.Linarith

namespace Foundation

abbrev Bytes := List UInt8

/-! ## §1. Fixed-width strings. -/

/-- A byte string of exactly `n` bytes. -/
structure FixedBytes (n : Nat) where
  bytes : Bytes
  length_eq : bytes.length = n
  deriving DecidableEq, Repr

namespace FixedBytes

theorem ext_bytes {a b : FixedBytes n} (h : a.bytes = b.bytes) : a = b := by
  cases a
  cases b
  simp only at h
  subst h
  rfl

def zero (n : Nat) : FixedBytes n := ⟨List.replicate n 0, List.length_replicate⟩

instance : Inhabited (FixedBytes n) := ⟨zero n⟩

@[simp] theorem length_bytes (a : FixedBytes n) : a.bytes.length = n := a.length_eq

end FixedBytes

/-! ## §2. Big-endian naturals. -/

/-- The `w` low-order base-256 digits of `n`, most significant first. -/
def beBytes : Nat → Nat → Bytes
  | 0, _ => []
  | w + 1, n => UInt8.ofNat (n / 256 ^ w) :: beBytes w n

def ofBe : Bytes → Nat
  | [] => 0
  | b :: bs => b.toNat * 256 ^ bs.length + ofBe bs

@[simp] theorem length_beBytes (w n : Nat) : (beBytes w n).length = w := by
  induction w with
  | zero => rfl
  | succ w ih => simp [beBytes, ih]

def FixedBytes.ofNat (w n : Nat) : FixedBytes w := ⟨beBytes w n, length_beBytes w n⟩

theorem ofBe_lt (bs : Bytes) : ofBe bs < 256 ^ bs.length := by
  induction bs with
  | nil => simp [ofBe]
  | cons b bs ih =>
    have hb : b.toNat < 256 := b.toNat_lt
    have hstep : (b.toNat + 1) * 256 ^ bs.length ≤ 256 * 256 ^ bs.length :=
      Nat.mul_le_mul_right _ hb
    simp only [ofBe, List.length_cons, Nat.pow_succ]
    linarith

theorem beBytes_mod (w n : Nat) : beBytes w (n % 256 ^ w) = beBytes w n := by
  -- A strictly larger modulus is used in the recursive call, so it is generalised.
  have key : ∀ v k : Nat, v ≤ k → beBytes v (n % 256 ^ k) = beBytes v n := by
    intro v
    induction v with
    | zero => intro k _; rfl
    | succ v ih =>
      intro k hk
      simp only [beBytes]
      rw [ih k (by omega)]
      congr 1
      apply UInt8.toNat_inj.mp
      simp only [UInt8.toNat_ofNat']
      obtain ⟨d, rfl⟩ : ∃ d, k = v + (d + 1) := ⟨k - v - 1, by omega⟩
      rw [Nat.pow_add, Nat.mod_mul_right_div_self, Nat.pow_succ, Nat.mod_mul_left_mod]
  exact key w w (Nat.le_refl w)

/-- **Reading back what was written**: exact below `256 ^ w`. -/
theorem ofBe_beBytes (w n : Nat) : ofBe (beBytes w n) = n % 256 ^ w := by
  induction w with
  | zero => simp [beBytes, ofBe, Nat.mod_one]
  | succ w ih =>
    have hsplit : n % 256 ^ (w + 1) = n % 256 ^ w + 256 ^ w * (n / 256 ^ w % 256) := by
      rw [Nat.pow_succ, Nat.mod_mul]
    simp only [beBytes, ofBe, length_beBytes, ih, UInt8.toNat_ofNat', hsplit]
    rw [Nat.mul_comm, Nat.add_comm]

theorem ofBe_beBytes_of_lt (h : n < 256 ^ w) : ofBe (beBytes w n) = n := by
  rw [ofBe_beBytes, Nat.mod_eq_of_lt h]

/-- **Writing back what was read**: every string is the encoding of its value. -/
theorem beBytes_ofBe (bs : Bytes) : beBytes bs.length (ofBe bs) = bs := by
  induction bs with
  | nil => rfl
  | cons b bs ih =>
    have hlt : ofBe bs < 256 ^ bs.length := ofBe_lt bs
    simp only [List.length_cons, beBytes, ofBe]
    congr 1
    · rw [Nat.add_comm, Nat.add_mul_div_right _ _ (Nat.pow_pos (by decide)),
        Nat.div_eq_of_lt hlt, Nat.zero_add]
      exact UInt8.ofNat_toNat
    · rw [← beBytes_mod, Nat.add_comm, Nat.add_mul_mod_self_right, beBytes_mod, ih]

def u64Bytes (x : UInt64) : Bytes := beBytes 8 x.toNat

@[simp] theorem length_u64Bytes (x : UInt64) : (u64Bytes x).length = 8 := by
  simp [u64Bytes]

theorem ofBe_u64Bytes (x : UInt64) : UInt64.ofNat (ofBe (u64Bytes x)) = x := by
  rw [u64Bytes, ofBe_beBytes_of_lt (by exact x.toNat_lt)]
  exact UInt64.ofNat_toNat

/-! ## §3. UTF-8 text. -/

def utf8Bytes (s : String) : Bytes := s.toByteArray.data.toList

/-- The text a byte string encodes; `none` unless it is valid UTF-8. -/
def utf8? (bs : Bytes) : Option String := String.fromUTF8? ⟨bs.toArray⟩

theorem utf8?_utf8Bytes (s : String) : utf8? (utf8Bytes s) = some s := by
  have harr : (⟨(utf8Bytes s).toArray⟩ : ByteArray) = s.toByteArray := by
    simp [utf8Bytes]
  unfold utf8?
  rw [harr, String.fromUTF8?, dif_pos s.isValidUTF8]
  rfl

theorem utf8Bytes_inj (h : utf8Bytes s = utf8Bytes t) : s = t :=
  Option.some.inj ((utf8?_utf8Bytes s).symm.trans (h ▸ utf8?_utf8Bytes t))

theorem utf8Bytes_of_utf8? (h : utf8? bs = some s) : utf8Bytes s = bs := by
  unfold utf8? String.fromUTF8? at h
  split at h
  next hv =>
    cases h
    simp [utf8Bytes, String.fromUTF8]
  next => cases h

theorem length_utf8Bytes (s : String) : (utf8Bytes s).length = String.utf8Len s.toList := by
  rw [← String.utf8ByteSize_ofList, String.ofList_toList]
  rfl

theorem length_utf8Bytes_le (s : String) : (utf8Bytes s).length ≤ 4 * s.length := by
  rw [length_utf8Bytes, ← String.length_toList]
  induction s.toList with
  | nil => simp
  | cons c cs ih =>
    have hc := c.utf8Size_le_four
    rw [String.utf8Len_cons, List.length_cons]
    omega

theorem length_le_utf8Bytes (s : String) : s.length ≤ (utf8Bytes s).length := by
  rw [length_utf8Bytes, ← String.length_toList]
  induction s.toList with
  | nil => simp
  | cons c cs ih =>
    have hc := c.utf8Size_pos
    rw [String.utf8Len_cons, List.length_cons]
    omega

/-! ## §4. Lists of rows. -/

variable {α : Type*} {l : List α}

theorem mem_snoc : x ∈ l ++ [a] ↔ x ∈ l ∨ x = a := by
  rw [List.mem_append, List.mem_singleton]

theorem nodup_snoc (h : l.Nodup) (hnew : a ∉ l) : (l ++ [a]).Nodup := by
  rw [← List.concat_eq_append]
  exact h.concat hnew

/-- Looking a key up where the rows of one key were changed. -/
theorem find?_map_ite {κ : Type} [DecidableEq κ] {key : α → κ} {f : α → α} {k k' : κ}
    (hf : ∀ a, key a = k → key (f a) = k) :
    (l.map fun a => if key a = k then f a else a).find? (fun a => key a = k')
      = if k' = k then (l.find? fun a => key a = k').map f else l.find? fun a => key a = k' := by
  rw [List.find?_map]
  have hsame : (fun b => decide (key b = k')) ∘ (fun b => if key b = k then f b else b)
      = fun b => decide (key b = k') := by
    funext b
    show decide (key (if key b = k then f b else b) = k') = decide (key b = k')
    split
    next hb => rw [hf b hb, hb]
    next => rfl
  rw [hsame]
  cases hfind : l.find? fun b => decide (key b = k') with
  | none => split <;> rfl
  | some b =>
    obtain rfl : key b = k' := by simpa using List.find?_some hfind
    show some (if key b = k then f b else b) = _
    split <;> rfl

/-- What a search for the only item finds. -/
theorem find?_of_unique (hx : x ∈ l) (hp : p x) (hunique : ∀ y ∈ l, p y → y = x) :
    l.find? p = some x := by
  obtain ⟨found, hfind⟩ := Option.isSome_iff_exists.mp (List.find?_isSome.mpr ⟨x, hx, hp⟩)
  rw [hfind, hunique found (List.mem_of_find?_eq_some hfind) (List.find?_some hfind)]

end Foundation
