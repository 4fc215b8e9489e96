/-
  **SHARES** — what the crate takes from `blahaj`.

  A dealer turns a secret into shares, one evaluation point each, and a
  threshold of them gives the secret back.  The scheme enters the model as
  a class, like the hash does; what a statement needs of one dealing is the
  hypothesis `Recovers`, and `Sharks.gf256` is the scheme itself, over
  GF(256) with fixed coefficients, for evaluating examples.  `refreshAmong`
  and what it calls are `pss.rs`.
-/
import KeyQuorum.Platform
import Mathlib.Data.List.Permutation
import Mathlib.Data.List.Sublists

namespace KeyQuorum

open List Foundation

/-! ## §1. Shares. -/

/-- `blahaj::Share`: an evaluation point, and the value of each byte's polynomial there. -/
structure Share where
  x : UInt8
  y : Bytes
  deriving DecidableEq, Repr

/-- `Vec::from(&share)`. -/
def Share.toBytes (share : Share) : Bytes := share.x :: share.y

/-- `Share::try_from`: at least two bytes. -/
def Share.ofBytes : Bytes → Option Share
  | x :: first :: rest => some ⟨x, first :: rest⟩
  | _ => none

theorem Share.ofBytes_toBytes {share : Share} (h : share.y ≠ []) :
    Share.ofBytes share.toBytes = some share := by
  obtain ⟨x, y⟩ := share
  cases y with
  | nil => exact absurd rfl h
  | cons first rest => rfl

/-- The `sharks` crate. -/
class Sharks where
  /-- `Sharks(threshold).dealer_rng(secret, rng).take(count)`, the randomness given by a seed. -/
  deal : (threshold : Nat) → (secret : Bytes) → (seed : Nat) → (count : Nat) → List Share
  /-- `Sharks(threshold).recover(shares)`. -/
  recover : (threshold : Nat) → List Share → Option Bytes

/-- What the crate documents of one dealing: a value byte for each byte of the secret, and any
`threshold` or more distinct shares recover the secret. -/
structure Recovers [Sharks] (threshold : Nat) (secret : Bytes) (seed count : Nat) : Prop where
  width : ∀ share ∈ Sharks.deal threshold secret seed count, share.y.length = secret.length
  recover : ∀ picked : List Share, picked.Subperm (Sharks.deal threshold secret seed count) →
    threshold ≤ picked.length → Sharks.recover threshold picked = some secret

/-! ## §2. The scheme over GF(256). -/

namespace Gf256

/-- Multiplication by `x`, modulo `x⁸ + x⁴ + x³ + x² + 1`. -/
def double (a : Nat) : Nat := if a < 128 then 2 * a else (2 * a) ^^^ 0x11d

def mulLoop : Nat → Nat → Nat → Nat → Nat
  | 0, _, _, acc => acc
  | bits + 1, a, b, acc =>
    mulLoop bits (double a) (b / 2) (if b % 2 = 1 then acc ^^^ a else acc)

def mul (a b : Nat) : Nat := mulLoop 8 a b 0

def inv (a : Nat) : Nat := (List.replicate 254 a).foldl mul 1

def eval (coefficients : List Nat) (x : Nat) : Nat :=
  coefficients.foldr (fun c acc => c ^^^ mul x acc) 0

def interpolate (points : List (Nat × Nat)) : Nat :=
  points.foldl (fun acc point =>
    acc ^^^ points.foldl (fun term other =>
      if other.1 = point.1 then term else mul term (mul other.1 (inv (other.1 ^^^ point.1))))
      point.2) 0

end Gf256

/-- Shamir sharing over GF(256), as a scheme that can be run. -/
@[reducible] def Sharks.gf256 : Sharks where
  deal threshold secret seed count :=
    (List.range' 1 (min count 255)).map fun x =>
      ⟨UInt8.ofNat x, secret.zipIdx.map fun (byte, i) =>
        UInt8.ofNat (Gf256.eval (byte.toNat :: (List.range' 1 (threshold - 1)).map fun j =>
          (seed + 31 * i + 17 * j) % 256) x)⟩
  recover threshold shares :=
    match shares with
    | [] => none
    | first :: _ =>
      if shares.any (fun share => share.y.length ≠ first.y.length) then none
      else if (shares.map Share.x).dedup.length < threshold then none
      else some ((List.range first.y.length).map fun i =>
        UInt8.ofNat (Gf256.interpolate (shares.map fun share =>
          (share.x.toNat, ((share.y)[i]?.getD 0).toNat))))

/-! ## §3. Refreshing (`pss.rs`). -/

def requireDistinctNonzeroXs (xs : List UInt8) : Except Error Unit :=
  if xs.Nodup ∧ 0 ∉ xs then .ok () else .error .shareShapeMismatch

/-- `add_shares`, which `apply_deltas` is. -/
def addShares : Bytes → Bytes → Except Error Bytes
  | x :: ys, x' :: ys' =>
    if ys.isEmpty || ys.length ≠ ys'.length || x ≠ x' then .error .shareShapeMismatch
    else .ok (x :: List.zipWith (· ^^^ ·) ys ys')
  | _, _ => .error .shareShapeMismatch

/-- `generate_zero_deltas`: a share of zero for every wanted point. -/
def generateZeroDeltas [Sharks] (threshold secretLen : Nat) (xs : List UInt8) (seed : Nat) :
    Except Error (List (UInt8 × Bytes)) := do
  if threshold < 2 || secretLen = 0 || xs.isEmpty then .error .shareShapeMismatch
  requireDistinctNonzeroXs xs
  let all := Sharks.deal threshold (List.replicate secretLen 0) seed 255
  let byX := xs.filterMap fun x =>
    (all.reverse.find? fun share => share.x = x).map fun share => (x, share.toBytes)
  if byX.length ≠ xs.length then .error .shareShapeMismatch
  .ok byX

/-- One round of `refresh_among`: every sum takes up its delta. -/
def absorbDeltas (deltas : List (UInt8 × Bytes)) :
    List (UInt8 × Bytes) → Except Error (List (UInt8 × Bytes))
  | [] => .ok []
  | (x, sum) :: rest => do
      let sum ← match deltas.lookup x with
        | some delta => addShares sum delta
        | none => .ok sum
      let rest ← absorbDeltas deltas rest
      .ok ((x, sum) :: rest)

/-- The rounds of `refresh_among`, each with randomness of its own. -/
def blindingSums [Sharks] (seeds : Nat → Nat) (threshold secretLen : Nat) (xs : List UInt8) :
    Nat → Except Error (List (UInt8 × Bytes))
  | 0 => .ok (xs.map fun x => (x, x :: List.replicate secretLen 0))
  | round + 1 => do
      let sums ← blindingSums seeds threshold secretLen xs round
      let deltas ← generateZeroDeltas threshold secretLen xs (seeds round)
      absorbDeltas deltas sums

/-- The last loop of `refresh_among`. -/
def blindShares (sums : List (UInt8 × Bytes)) : List Bytes → Except Error (List Bytes)
  | [] => .ok []
  | share :: rest => do
      let blinded ← match share.head?.bind fun x => sums.lookup x with
        | some delta => addShares share delta
        | none => .error .shareShapeMismatch
      let rest ← blindShares sums rest
      .ok (blinded :: rest)

def refreshAmong [Sharks] (seeds : Nat → Nat) (threshold : Nat) (shares : List Bytes) :
    Except Error (List Bytes) := do
  if shares.isEmpty || shares.length < threshold then .error .shareShapeMismatch
  let secretLen := (shares.headD []).length - 1
  if secretLen = 0 || shares.any (fun share => share.length ≠ secretLen + 1) then
    .error .shareShapeMismatch
  let xs := shares.filterMap List.head?
  requireDistinctNonzeroXs xs
  if threshold < 2 then .error .shareShapeMismatch
  let sums ← blindingSums seeds threshold secretLen xs shares.length
  blindShares sums shares

theorem recovers_of_all [Sharks] {count : Nat}
    (hwidth : ∀ share ∈ Sharks.deal threshold secret seed count, share.y.length = secret.length)
    (h : ∀ picked ∈ (Sharks.deal threshold secret seed count).sublists.flatMap List.permutations',
      threshold ≤ picked.length → Sharks.recover threshold picked = some secret) :
    Recovers threshold secret seed count := by
  refine ⟨hwidth, fun picked hpicked => h picked ?_⟩
  obtain ⟨sub, hperm, hsub⟩ := hpicked
  exact mem_flatMap.mpr ⟨sub, mem_sublists.mpr hsub, mem_permutations'.mpr hperm.symm⟩

end KeyQuorum
