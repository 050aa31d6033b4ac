/-
Rounding 64-bit words to a power of two.

* `toNat_and_not_low` — clearing the low bits rounds down;
* `toNat_add_and_not_low` — adding the low bits first rounds up, if what it rounds to can be
  represented.
-/
import Mathlib.Data.Nat.Bitwise

namespace AlignedWords

variable {x mask : UInt64} {k : ℕ}

/-- **Clearing the low bits rounds down.** -/
theorem toNat_and_not_low (hmask : mask.toNat = 2 ^ k - 1) :
    (x &&& ~~~mask).toNat = x.toNat / 2 ^ k * 2 ^ k := by
  apply Nat.eq_of_testBit_eq
  intro i
  have hbit : mask.toBitVec.getLsbD i = decide (i < k) := by
    rw [BitVec.getLsbD, UInt64.toNat_toBitVec, hmask, Nat.testBit_two_pow_sub_one]
  have hlow : i < 64 ∨ x.toNat.testBit i = false := by
    by_cases hi : i < 64
    · exact .inl hi
    · exact .inr (Nat.testBit_lt_two_pow
        (x.toNat_lt.trans_le (Nat.pow_le_pow_right (by decide) (by omega))))
  rw [Nat.testBit_mul_two_pow, Nat.testBit_div_two_pow, ← UInt64.toNat_toBitVec,
    UInt64.toBitVec_and,
    UInt64.toBitVec_not, ← BitVec.getLsbD, BitVec.getLsbD_and, BitVec.getLsbD_not, hbit]
  by_cases hk : k ≤ i
  · rcases hlow with hi | hx
    · simp [hk, hi, BitVec.getLsbD, Nat.sub_add_cancel hk]
    · simp [hk, hx, BitVec.getLsbD, Nat.sub_add_cancel hk]
  · simp [hk, show i < k by omega]

/-- The least multiple of `2 ^ k` from `n` on. -/
def roundUp (k n : ℕ) : ℕ := (n + (2 ^ k - 1)) / 2 ^ k * 2 ^ k

theorem le_roundUp (k n : ℕ) : n ≤ roundUp k n := by
  have hpos : 0 < 2 ^ k := Nat.two_pow_pos k
  have hdiv := Nat.div_add_mod (n + (2 ^ k - 1)) (2 ^ k)
  have hmod := Nat.mod_lt (n + (2 ^ k - 1)) hpos
  unfold roundUp
  rw [Nat.mul_comm]
  omega

/-- **Adding the low bits and clearing them rounds up.**  The sum itself does not wrap then, as what
it is rounded to would have to be past the last word. -/
theorem toNat_add_and_not_low (hmask : mask.toNat = 2 ^ k - 1) (hk : k ≤ 64)
    (h : roundUp k x.toNat < 2 ^ 64) : ((x + mask) &&& ~~~mask).toNat = roundUp k x.toNat := by
  have hsum : x.toNat + (2 ^ k - 1) < 2 ^ 64 := by
    by_contra hge
    have hpow : 2 ^ 64 = 2 ^ (64 - k) * 2 ^ k := by rw [← pow_add, Nat.sub_add_cancel hk]
    have hdiv : 2 ^ (64 - k) ≤ (x.toNat + (2 ^ k - 1)) / 2 ^ k := by
      rw [Nat.le_div_iff_mul_le (Nat.two_pow_pos k), ← hpow]
      omega
    have hmul := Nat.mul_le_mul_right (2 ^ k) hdiv
    rw [← hpow] at hmul
    exact absurd h (not_lt.mpr hmul)
  rw [toNat_and_not_low hmask, UInt64.toNat_add, hmask, Nat.mod_eq_of_lt hsum]
  rfl

/-- A multiple that cannot be represented comes out as 0. -/
theorem roundUp_lt_of_ne_zero (hmask : mask.toNat = 2 ^ k - 1)
    (h : ((x + mask) &&& ~~~mask).toNat ≠ 0) : roundUp k x.toNat < 2 ^ 64 := by
  by_contra hge
  have hsum : 2 ^ 64 ≤ x.toNat + (2 ^ k - 1) := (not_lt.mp hge).trans (Nat.div_mul_le_self _ _)
  have hpos := Nat.two_pow_pos k
  have hx := x.toNat_lt
  have hm := mask.toNat_lt
  rw [hmask] at hm
  rw [toNat_and_not_low hmask, UInt64.toNat_add, hmask, Nat.mod_eq_sub_mod hsum,
    Nat.mod_eq_of_lt (by omega), Nat.div_eq_of_lt (by omega)] at h
  exact h (Nat.zero_mul _)

end AlignedWords
