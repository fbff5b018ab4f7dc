import Mathlib.Tactic

set_option autoImplicit false

/-! # Machine integers of 32 bits

What a C expression is worth when it is stored in an `unsigned int` (`uint`) or in an `int`
(`int`). In range both conversions change nothing; out of it `int` drops multiples of 2³².
-/

namespace Wrap

/-- The value in an `unsigned int`. -/
def uint (x : Int) : Nat := (x % 2 ^ 32).toNat

/-- The value in an `int`. -/
def int (x : Int) : Int := x.bmod (2 ^ 32)

variable {x y : Int}

theorem uint_cast (x : Int) : (uint x : Int) = x % 2 ^ 32 := by
  unfold uint
  omega

theorem uint_eq (h₀ : 0 ≤ x) (h : x < 2 ^ 32) : (uint x : Int) = x := by
  rw [uint_cast, Int.emod_eq_of_lt h₀ h]

theorem uint_natCast {n : Nat} (h : n < 2 ^ 32) : uint n = n := by
  have := uint_eq (Int.natCast_nonneg n) (by exact_mod_cast h)
  exact_mod_cast this

theorem int_eq (h₀ : -2 ^ 31 ≤ x) (h : x < 2 ^ 31) : int x = x := by
  rw [int, Int.bmod_def]
  split <;> omega

theorem int_bounds (x : Int) : -2 ^ 31 ≤ int x ∧ int x < 2 ^ 31 := by
  rw [int, Int.bmod_def]
  split <;> omega

@[simp] theorem int_int (x : Int) : int (int x) = int x :=
  int_eq (int_bounds x).1 (int_bounds x).2

/-- An `int` does not see multiples of 2³². -/
theorem int_add_mul_pow (x n : Int) : int (x + 2 ^ 32 * n) = int x :=
  Int.add_mul_bmod_self_left x (2 ^ 32) n

end Wrap
