import Mathlib

/-! # C integer conversions

    A C expression that mixes signed and unsigned operands is computed on
    exact integers here and brought back into its type where the program
    converts it: `sizeT` for a conversion to `size_t`, `toInt32` to `int`,
    `toInt64` to `int64_t` (two's complement, 64-bit `size_t`). -/

namespace CInt

/-- Conversion to `size_t`: the value modulo `2 ^ 64`. -/
def sizeT (z : Int) : Nat := (z % 2 ^ 64).toNat

/-- Conversion to a 32-bit `int`. -/
def toInt32 (z : Int) : Int := (z + 2 ^ 31) % 2 ^ 32 - 2 ^ 31

/-- Conversion to `int64_t`. -/
def toInt64 (z : Int) : Int := (z + 2 ^ 63) % 2 ^ 64 - 2 ^ 63

/-! ## Values that fit -/

@[simp] theorem sizeT_natCast {n : Nat} (h : n < 2 ^ 64) : sizeT (n : Int) = n := by
  unfold sizeT; omega

theorem sizeT_of_nonneg {z : Int} (h₀ : 0 ≤ z) (h₁ : z < 2 ^ 64) :
    (sizeT z : Int) = z := by
  unfold sizeT; omega

theorem toInt32_of_range {z : Int} (h₀ : -2 ^ 31 ≤ z) (h₁ : z < 2 ^ 31) :
    toInt32 z = z := by
  unfold toInt32; omega

theorem toInt64_of_range {z : Int} (h₀ : -2 ^ 63 ≤ z) (h₁ : z < 2 ^ 63) :
    toInt64 z = z := by
  unfold toInt64; omega

theorem toInt64_le {z : Int} (h : 0 ≤ z) : toInt64 z ≤ z := by
  unfold toInt64; omega

/-! ## Values that wrap -/

/-- A small negative value becomes a `size_t` just below `2 ^ 64`. -/
theorem sizeT_of_neg {z : Int} (h₀ : -2 ^ 64 ≤ z) (h₁ : z < 0) :
    (sizeT z : Int) = z + 2 ^ 64 := by
  unfold sizeT; omega

/-- Converting a wrapped `size_t` to `int` gives the negative value back. -/
theorem toInt32_sizeT_of_neg {z : Int} (h₀ : -2 ^ 31 ≤ z) (h₁ : z < 0) :
    toInt32 (sizeT z) = z := by
  rw [sizeT_of_neg (by omega) h₁]
  unfold toInt32; omega

theorem toInt64_sizeT {z : Int} (h₀ : -2 ^ 63 ≤ z) (h₁ : z < 2 ^ 63) :
    toInt64 (sizeT z) = z := by
  unfold toInt64 sizeT; omega

/-- Subtractions from an `int` may be collected before converting. -/
@[simp] theorem toInt32_toInt32_sub (x y : Int) : toInt32 (toInt32 x - y) = toInt32 (x - y) := by
  unfold toInt32; omega

end CInt
