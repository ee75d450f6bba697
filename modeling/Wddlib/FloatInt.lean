import Mathlib.Algebra.Order.Ring.Nat
import Mathlib.Tactic.Common

namespace Wddlib

/-- The nearest number whose binary form has 24 digits in front of its zeros; of two that are as near, the even one. -/
def roundMantissa (n : Nat) : Nat :=
  let unit := 2 ^ (n.log2 - 23)
  let quot := n / unit
  let rest := n % unit
  (if unit < 2 * rest ∨ unit = 2 * rest ∧ quot % 2 = 1 then quot + 1 else quot) * unit

/-- An integer as a single-precision `float`. -/
def toFloat (n : Int) : Int := if n < 0 then -(roundMantissa n.natAbs : Int) else roundMantissa n.natAbs

/-- A `float` without a fraction as an `int`. Where it is out of range, the conversion of x86-64 gives the smallest
`int`. -/
def floatToInt (x : Int) : Int := if -2147483648 ≤ x ∧ x < 2147483648 then x else -2147483648

section Mantissa

variable {n k : Nat}

theorem roundMantissa_exact (small : n < 16777216) : roundMantissa n = n := by
  have digits : n.log2 - 23 = 0 := by
    by_cases hzero : n = 0
    · rw [hzero]
      rfl
    · have := (Nat.log2_lt hzero (k := 24)).mpr small
      omega
  simp [roundMantissa, digits, Nat.mod_one]

/-- A power of two is a float, so that no number is rounded across one. -/
theorem le_roundMantissa (hk : 23 ≤ k) (h : 2 ^ k ≤ n) : 2 ^ k ≤ roundMantissa n := by
  have hn : n ≠ 0 := by
    have := Nat.two_pow_pos k
    omega
  have hlog : k ≤ n.log2 := (Nat.le_log2 hn).mpr h
  have split : 2 ^ 23 * 2 ^ (n.log2 - 23) = 2 ^ n.log2 := by
    rw [← Nat.pow_add, show 23 + (n.log2 - 23) = n.log2 by omega]
  have hquot : 2 ^ 23 ≤ n / 2 ^ (n.log2 - 23) := by
    rw [Nat.le_div_iff_mul_le (Nat.two_pow_pos _), split]
    exact Nat.log2_self_le hn
  calc
    2 ^ k ≤ 2 ^ n.log2 := Nat.pow_le_pow_right (by decide) hlog
    _ = 2 ^ 23 * 2 ^ (n.log2 - 23) := split.symm
    _ ≤ roundMantissa n := by
      refine Nat.mul_le_mul_right _ (Nat.le_trans hquot ?_)
      split <;> omega

theorem roundMantissa_le (hk : 24 ≤ k) (h : n < 2 ^ k) : roundMantissa n ≤ 2 ^ k := by
  have hlog : n.log2 < k := by
    by_cases hzero : n = 0
    · rw [hzero]
      exact Nat.lt_of_lt_of_le (show 0 < 24 by decide) hk
    · exact (Nat.log2_lt hzero).mpr h
  have split : 2 ^ (k - (n.log2 - 23)) * 2 ^ (n.log2 - 23) = 2 ^ k := by
    rw [← Nat.pow_add, show k - (n.log2 - 23) + (n.log2 - 23) = k by omega]
  have hquot : n / 2 ^ (n.log2 - 23) < 2 ^ (k - (n.log2 - 23)) := by
    rw [Nat.div_lt_iff_lt_mul (Nat.two_pow_pos _), split]
    exact h
  rw [← split]
  refine Nat.mul_le_mul_right _ ?_
  split <;> omega

/-- Between `2 ^ 30` and `2 ^ 31` the floats are the multiples of 128. -/
theorem roundMantissa_wide (lo : 1073741824 ≤ n) (hi : n < 2147483648) :
    roundMantissa n =
      (if 128 < 2 * (n % 128) ∨ 128 = 2 * (n % 128) ∧ n / 128 % 2 = 1 then n / 128 + 1 else n / 128) * 128 := by
  have digits : n.log2 = 30 := (Nat.log2_eq_iff (by omega)).mpr (by omega)
  simp [roundMantissa, digits]

end Mantissa

section Float

variable {x : Int}

theorem toFloat_natCast (n : Nat) : toFloat n = roundMantissa n := by
  rw [toFloat, if_neg (by omega), Int.natAbs_natCast]

theorem toFloat_neg_natCast (n : Nat) : toFloat (-n) = -roundMantissa n := by
  unfold toFloat
  rw [Int.natAbs_neg, Int.natAbs_natCast]
  split
  next => rfl
  next nonneg =>
    obtain rfl : n = 0 := by omega
    rfl

theorem toFloat_exact (lo : -16777216 < x) (hi : x < 16777216) : toFloat x = x := by
  unfold toFloat
  rw [roundMantissa_exact (by omega)]
  split <;> omega

theorem le_toFloat (large : 16777216 ≤ x) : 16777216 ≤ toFloat x := by
  obtain ⟨n, rfl⟩ := Int.eq_ofNat_of_zero_le (show 0 ≤ x by omega)
  rw [toFloat_natCast]
  have := le_roundMantissa (n := n) (show 23 ≤ 24 by decide) (by omega)
  omega

theorem toFloat_le (large : x ≤ -16777216) : toFloat x ≤ -16777216 := by
  obtain ⟨n, hn⟩ := Int.eq_ofNat_of_zero_le (show 0 ≤ -x by omega)
  rw [show x = -n by omega, toFloat_neg_natCast]
  have := le_roundMantissa (n := n) (show 23 ≤ 24 by decide) (by omega)
  omega

/-- Below `2 ^ 24` a bound holds of a number exactly if it holds of the float. -/
theorem le_toFloat_iff {c : Int} (lo : -16777216 < c) (hi : c < 16777216) : c ≤ toFloat x ↔ c ≤ x := by
  by_cases exact_ : -16777216 < x ∧ x < 16777216
  · rw [toFloat_exact exact_.1 exact_.2]
  · by_cases large : 16777216 ≤ x
    · have := le_toFloat large
      omega
    · have := toFloat_le (show x ≤ -16777216 by omega)
      omega

end Float

end Wddlib
