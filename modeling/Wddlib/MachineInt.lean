import Mathlib.Data.Int.ModEq
import Mathlib.Tactic.Common

namespace Wddlib

/-- The value a 32-bit two's complement `int` keeps of a mathematical integer. -/
def int32 (n : Int) : Int :=
  if (n % 4294967296).toNat < 2147483648 then n % 4294967296 else n % 4294967296 - 4294967296

theorem int32_eq_self {n : Int} (lo : -2147483648 ≤ n) (hi : n < 2147483648) : int32 n = n := by
  unfold int32
  split <;> omega

theorem int32_eq_sub {n : Int} (lo : 2147483648 ≤ n) (hi : n < 6442450944) :
    int32 n = n - 4294967296 := by
  unfold int32
  split <;> omega

/-- An unsigned 32-bit value as an `int`. -/
theorem int32_cases {n : Nat} (h : n < 4294967296) :
    (n < 2147483648 ∧ int32 n = n) ∨ (2147483648 ≤ n ∧ int32 n = n - 4294967296) := by
  by_cases hn : n < 2147483648
  · exact .inl ⟨hn, int32_eq_self (by omega) (by omega)⟩
  · exact .inr ⟨by omega, int32_eq_sub (by omega) (by omega)⟩

theorem int32_toNat_le (n : Nat) : (int32 n).toNat ≤ n := by
  unfold int32
  split <;> omega

/-- An intermediate reduction is invisible to a later one. -/
theorem int32_int32_add (m n : Int) : int32 (int32 m + n) = int32 (m + n) := by
  unfold int32
  split <;> split <;> split <;> omega

/-- Addition of `size_t` values. -/
def sizeAdd (a b : Nat) : Nat := (a + b) % 18446744073709551616

/-- Subtraction of `size_t` values: it wraps below zero. -/
def sizeSub (a b : Nat) : Nat := (a + (18446744073709551616 - b % 18446744073709551616)) % 18446744073709551616

theorem sizeAdd_eq {a b : Nat} (h : a + b < 18446744073709551616) : sizeAdd a b = a + b :=
  Nat.mod_eq_of_lt h

theorem sizeSub_eq {a b : Nat} (hb : b ≤ a) (ha : a < 18446744073709551616) : sizeSub a b = a - b := by
  unfold sizeSub
  rw [Nat.mod_eq_of_lt (by omega : b < 18446744073709551616)]
  omega

end Wddlib
