/-
  ObjStr.Sharded.JumpHash — `jump_consistent_hash` over any jump (`replication.rs`).

  The hash walks up the buckets: from bucket `b` it jumps to a position past `b`, as long as that is a
  bucket, and the last bucket it was at is the key's. Everything it is used for follows from the jump
  going up, so the walk is modelled over any jump that does (`JumpStep`); the jump in doubles is one
  (`doubleJump`), and the walk with it is the hash (`jumpConsistentHash_eq`).

  - `jumpWhile_range`: the walk ends at a bucket.
  - `jumpWhile_succ`: with one bucket more it ends where it ended, or at the new one. The two walks share
    every position up to the old number of buckets.
-/

import ObjStr.Sharded.Cluster
import Mathlib.Tactic.Linarith
import Mathlib.Tactic.NormNum
import Mathlib.Tactic.Positivity
import Mathlib.Tactic.FieldSimp

namespace ObjStr.Sharded

open ObjStr.Lib ObjStr.Raw

/-! ## The walk -/

/-- A jump from bucket `b`, by the state of the key: it goes up. -/
structure JumpStep where
  next : UInt64 → Nat → Nat
  lt_next : ∀ key b, b < 2 ^ 32 → b < next key b

def nextKey (key : UInt64) : UInt64 := key * 2862933555777941757 + 1

variable (s : JumpStep)

/-- The loop of `jump_consistent_hash`: `b` is where it was last, `j` where it jumps to. -/
def jumpWhile (numBuckets : UInt32) (key : UInt64) (b : Int) (j : Nat) : Int :=
  if _h : j < numBuckets.toNat then jumpWhile numBuckets (nextKey key) j (s.next (nextKey key) j)
  else b
termination_by numBuckets.toNat - j
decreasing_by
  have := s.lt_next (nextKey key) j (Nat.lt_trans _h numBuckets.toNat_lt)
  omega

/-- `jump_consistent_hash` with the jump `s`. -/
def jumpHash (key : UInt64) (numBuckets : UInt32) : UInt32 := UInt32.ofInt (jumpWhile s numBuckets key (-1) 0)

variable {s} {n n' : UInt32} {key : UInt64} {b : Int} {j : Nat}

theorem jumpWhile_of_lt (h : j < n.toNat) :
    jumpWhile s n key b j = jumpWhile s n (nextKey key) j (s.next (nextKey key) j) := by
  rw [jumpWhile, dif_pos h]

theorem jumpWhile_of_le (h : n.toNat ≤ j) : jumpWhile s n key b j = b := by
  rw [jumpWhile, dif_neg (by omega)]

variable (s key)

/-- The walk ends at a bucket if it is at one or is about to be. -/
theorem jumpWhile_range (h : j < n.toNat ∨ 0 ≤ b ∧ b < n.toNat) :
    0 ≤ jumpWhile s n key b j ∧ jumpWhile s n key b j < n.toNat := by
  induction hk : n.toNat - j using Nat.strong_induction_on generalizing key b j with
  | _ k ih =>
    by_cases hj : j < n.toNat
    · have hup := s.lt_next (nextKey key) j (Nat.lt_trans hj n.toNat_lt)
      rw [jumpWhile_of_lt hj]
      exact ih _ (by omega) (nextKey key) (Or.inr ⟨by omega, by omega⟩) rfl
    · rw [jumpWhile_of_le (by omega)]
      rcases h with h | h
      · exact absurd h hj
      · exact h

/-- The walks over `n` and `n + 1` buckets go together up to bucket `n`. -/
theorem jumpWhile_succ (hn : n'.toNat = n.toNat + 1) :
    jumpWhile s n' key b j = jumpWhile s n key b j ∨ jumpWhile s n' key b j = n.toNat := by
  induction hk : n.toNat - j using Nat.strong_induction_on generalizing key b j with
  | _ k ih =>
    by_cases hj : j < n.toNat
    · have hup := s.lt_next (nextKey key) j (Nat.lt_trans hj n.toNat_lt)
      rw [jumpWhile_of_lt hj, jumpWhile_of_lt (show j < n'.toNat by omega)]
      exact ih _ (by omega) (nextKey key) rfl
    · by_cases he : j = n.toNat
      · -- the longer walk takes one step more, past all buckets
        have hj' : j < n'.toNat := by omega
        have hup := s.lt_next (nextKey key) j (Nat.lt_trans hj' n'.toNat_lt)
        right
        rw [jumpWhile_of_lt hj', jumpWhile_of_le (by omega), he]
      · left
        rw [jumpWhile_of_le (by omega), jumpWhile_of_le (by omega)]

theorem toNat_ofInt {i : Int} (h0 : 0 ≤ i) (h : i < 2 ^ 32) : (UInt32.ofInt i).toNat = i.toNat := by
  unfold UInt32.ofInt
  rw [UInt32.toNat_ofNat_of_lt']
  · rw [Int.emod_eq_of_lt h0 h]
  · rw [Int.emod_eq_of_lt h0 h]
    have : (UInt32.size : Int) = 2 ^ 32 := rfl
    omega

theorem toNat_jumpHash (h : 1 ≤ n.toNat) : ((jumpHash s key n).toNat : Int) = jumpWhile s n key (-1) 0 := by
  have hr := jumpWhile_range s key (b := -1) (j := 0) (n := n) (Or.inl (by omega))
  have hlt := n.toNat_lt
  rw [jumpHash, toNat_ofInt hr.1 (by omega)]
  omega

/-! ## The jump in doubles -/

variable {s key}

/-- Rounding does not go below a natural number that has a double. -/
theorem le_toDouble {q : ℚ} {k : Nat} (hq : 1 ≤ q) (hk : (k : ℚ) ≤ q) (hk53 : k ≤ 2 ^ 53) : (k : ℚ) ≤ toDouble q := by
  have hfloor : 1 ≤ ⌊q⌋₊ := Nat.le_floor (by exact_mod_cast hq)
  have hpow : 2 ^ Nat.log2 ⌊q⌋₊ ≤ ⌊q⌋₊ := Nat.log2_self_le (by omega)
  have hle : ((2 ^ Nat.log2 ⌊q⌋₊ : Nat) : ℚ) ≤ q := (Nat.cast_le.mpr hpow).trans (Nat.floor_le (by linarith))
  have hkf : k ≤ ⌊q⌋₊ := Nat.le_floor hk
  unfold toDouble
  dsimp only
  generalize hu : (2 : ℚ) ^ ((Nat.log2 ⌊q⌋₊ : Int) - 52) = ulp
  have hpos : 0 < ulp := by rw [← hu]; exact zpow_pos (by norm_num) _
  -- a whole number of last places that is at least `k` and not above `q`
  have hwhole : ∃ i : Nat, (k : ℚ) ≤ i * ulp ∧ (i : ℚ) * ulp ≤ q := by
    by_cases he : Nat.log2 ⌊q⌋₊ ≤ 52
    · refine ⟨k * 2 ^ (52 - Nat.log2 ⌊q⌋₊), ?_⟩
      have hone : ((2 ^ (52 - Nat.log2 ⌊q⌋₊) : Nat) : ℚ) * ulp = 1 := by
        rw [← hu, Nat.cast_pow, Nat.cast_ofNat, ← zpow_natCast, ← zpow_add₀ (by norm_num)]
        have h0 : ((52 - Nat.log2 ⌊q⌋₊ : Nat) : Int) + ((Nat.log2 ⌊q⌋₊ : Int) - 52) = 0 := by omega
        rw [h0, zpow_zero]
      have heq : ((k * 2 ^ (52 - Nat.log2 ⌊q⌋₊) : Nat) : ℚ) * ulp = k := by
        rw [Nat.cast_mul, mul_assoc, hone, mul_one]
      rw [heq]
      exact ⟨le_refl _, hk⟩
    · refine ⟨2 ^ 52, ?_⟩
      have heq : ((2 ^ 52 : Nat) : ℚ) * ulp = ((2 ^ Nat.log2 ⌊q⌋₊ : Nat) : ℚ) := by
        rw [← hu, Nat.cast_pow, Nat.cast_pow, Nat.cast_ofNat, ← zpow_natCast, ← zpow_natCast,
          ← zpow_add₀ (by norm_num)]
        have h0 : ((52 : Nat) : Int) + ((Nat.log2 ⌊q⌋₊ : Int) - 52) = (Nat.log2 ⌊q⌋₊ : Int) := by omega
        rw [h0]
      have h53 : k ≤ 2 ^ Nat.log2 ⌊q⌋₊ := le_trans hk53 (Nat.pow_le_pow_right (by omega) (by omega))
      rw [heq]
      exact ⟨Nat.cast_le.mpr h53, hle⟩
  obtain ⟨i, hki, hiq⟩ := hwhole
  have hi : i ≤ ⌊q / ulp⌋₊ := Nat.le_floor (by rw [le_div_iff₀ hpos]; exact hiq)
  have hm : (k : ℚ) ≤ (⌊q / ulp⌋₊ : ℚ) * ulp :=
    hki.trans (mul_le_mul_of_nonneg_right (Nat.cast_le.mpr hi) hpos.le)
  split
  · exact hm
  · exact hm.trans (mul_le_mul_of_nonneg_right (by linarith) hpos.le)

/-- `((b + 1) as f64 * ((1i64 << 31) as f64 / ((key >> 33) + 1) as f64)) as i64`. -/
def doubleNext (key : UInt64) (b : Nat) : Nat :=
  ⌊toDouble ((b + 1) * toDouble (2 ^ 31 / ((key >>> 33).toNat + 1)))⌋₊

/-- The divisor is at most 2^31, so the factor is at least 1, and the product at least `b + 1`. -/
theorem lt_doubleNext (key : UInt64) (b : Nat) (hb : b < 2 ^ 32) : b < doubleNext key b := by
  have hr : (key >>> 33).toNat + 1 ≤ 2 ^ 31 := by
    have hk := key.toNat_lt
    rw [UInt64.toNat_shiftRight]
    simp only [UInt64.reduceToNat, Nat.reduceMod, Nat.shiftRight_eq_div_pow]
    omega
  have hfac : (1 : ℚ) ≤ 2 ^ 31 / ((key >>> 33).toNat + 1) := by
    rw [le_div_iff₀ (by positivity), one_mul]
    exact_mod_cast hr
  have hx : (1 : ℚ) ≤ toDouble (2 ^ 31 / ((key >>> 33).toNat + 1)) := by
    have := le_toDouble (k := 1) hfac (by exact_mod_cast hfac) (by decide)
    exact_mod_cast this
  have hprod : ((b + 1 : Nat) : ℚ) ≤ (b + 1) * toDouble (2 ^ 31 / ((key >>> 33).toNat + 1)) := by
    push_cast
    exact le_mul_of_one_le_right (by positivity) hx
  have hone : (1 : ℚ) ≤ (b + 1) * toDouble (2 ^ 31 / ((key >>> 33).toNat + 1)) := by
    refine le_trans ?_ hprod
    exact_mod_cast Nat.succ_le_succ (Nat.zero_le b)
  have hround := le_toDouble hone hprod (by omega)
  exact Nat.le_floor hround

def doubleJump : JumpStep := ⟨doubleNext, lt_doubleNext⟩

theorem jumpLoop_eq (rounds : Nat) (hr : n.toNat - j ≤ rounds) :
    jumpLoop n.toNat rounds key b j = jumpWhile doubleJump n key b j := by
  induction rounds generalizing key b j with
  | zero => rw [jumpLoop, jumpWhile_of_le (by omega)]
  | succ rounds ih =>
    rw [jumpLoop]
    by_cases hj : j < n.toNat
    · have hup := doubleJump.lt_next (nextKey key) j (Nat.lt_trans hj n.toNat_lt)
      rw [if_pos hj, jumpWhile_of_lt hj]
      exact ih (show n.toNat - doubleJump.next (nextKey key) j ≤ rounds by omega)
    · rw [if_neg hj, jumpWhile_of_le (by omega)]

/-- The hash is the walk with the jump in doubles. -/
theorem jumpConsistentHash_eq (key : UInt64) (n : UInt32) : jumpConsistentHash key n = jumpHash doubleJump key n := by
  rw [jumpConsistentHash, jumpHash, jumpLoop_eq n.toNat (Nat.sub_le _ _)]

/-! ## In range, and consistent -/

/-- Whatever the jump is, as long as it goes up: the hash is a bucket, and one bucket more moves a key to
    the new one or leaves it. The hash of the code is the one with the jump in doubles. -/
theorem jump_hash_is_consistent (s : JumpStep) (key : UInt64) :
    (∀ n : UInt32, 1 ≤ n.toNat → (jumpHash s key n).toNat < n.toNat) ∧
    (∀ n n' : UInt32, n'.toNat = n.toNat + 1 → jumpHash s key n' = jumpHash s key n ∨ jumpHash s key n' = n) ∧
    ∀ n : UInt32, jumpConsistentHash key n = jumpHash doubleJump key n := by
  refine ⟨?_, ?_, jumpConsistentHash_eq key⟩
  · intro n hn
    have hr := jumpWhile_range s key (b := -1) (j := 0) (n := n) (Or.inl (by omega))
    have hv := toNat_jumpHash s key hn
    omega
  · intro n n' hn
    rcases jumpWhile_succ s key (b := -1) (j := 0) hn with h | h
    · left
      rw [jumpHash, h, jumpHash]
    · right
      have hv := toNat_jumpHash s key (n := n') (by omega)
      rw [h] at hv
      exact UInt32.toNat_inj.mp (by exact_mod_cast hv)

end ObjStr.Sharded
