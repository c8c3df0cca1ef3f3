import Mathlib

/-!
# Integral types

The integral types of a C-like language, by their bits (`IntegralType`). A number is
converted to such a type modulo a power of two (`IntegralType.convert`), which keeps the
numbers that the type represents.
-/

namespace Theory

/-- An integral type: its number of bits, and whether it has a sign. -/
structure IntegralType where
  bits : ℕ
  isSigned : Bool
  bits_pos : 0 < bits := by decide

theorem eight_pos : 0 < 8 := Nat.succ_pos 7
theorem sixteen_pos : 0 < 16 := Nat.succ_pos 15
theorem thirtyTwo_pos : 0 < 32 := Nat.succ_pos 31
theorem sixtyFour_pos : 0 < 64 := Nat.succ_pos 63

namespace IntegralType

variable (R : IntegralType)

/-- The least number of the type. -/
def min : ℤ := if R.isSigned then -2 ^ (R.bits - 1) else 0

/-- The greatest number of the type. -/
def max : ℤ := if R.isSigned then 2 ^ (R.bits - 1) - 1 else 2 ^ R.bits - 1

/-- The number is one of the type. -/
def Represents (n : ℤ) : Prop := R.min ≤ n ∧ n ≤ R.max

instance (n : ℤ) : Decidable (R.Represents n) := inferInstanceAs (Decidable (_ ∧ _))

/-- The number of the type that is the same modulo a power of two. -/
def convert (n : ℤ) : ℤ := if R.isSigned then n.bmod (2 ^ R.bits) else n % 2 ^ R.bits

variable {R} {n : ℤ}

theorem pow_bits : 2 ^ R.bits = 2 * 2 ^ (R.bits - 1) := by
  obtain ⟨b, hb⟩ := Nat.exists_eq_succ_of_ne_zero (Nat.pos_iff_ne_zero.1 R.bits_pos)
  rw [hb, Nat.succ_sub_one, Nat.pow_succ, Nat.mul_comm]

theorem represents_min : R.Represents R.min := by
  have hpos : (0 : ℤ) < 2 ^ (R.bits - 1) := Int.pow_pos (by decide)
  have hpos' : (0 : ℤ) < 2 ^ R.bits := Int.pow_pos (by decide)
  refine ⟨Int.le_refl _, ?_⟩
  rw [min, max]
  split_ifs <;> omega

theorem represents_max : R.Represents R.max := ⟨represents_min.2, Int.le_refl _⟩

theorem convert_of_represents (h : R.Represents n) : R.convert n = n := by
  obtain ⟨hmin, hmax⟩ := h
  rw [min] at hmin
  rw [max] at hmax
  rw [convert]
  split_ifs at hmin hmax ⊢
  · have hpow : ((2 ^ R.bits : ℕ) : ℤ) = 2 * 2 ^ (R.bits - 1) := by
      rw [pow_bits]
      push_cast
      rfl
    exact Int.bmod_eq_of_le_mul_two (by rw [hpow]; omega) (by rw [hpow]; omega)
  · exact Int.emod_eq_of_lt hmin (by omega)

/-- What a number is converted to is one of the type. -/
theorem represents_convert (R : IntegralType) (n : ℤ) : R.Represents (R.convert n) := by
  have hpos : 0 < 2 ^ R.bits := Nat.two_pow_pos _
  rw [Represents, min, max, convert]
  split_ifs
  · have hpow : ((2 ^ R.bits : ℕ) : ℤ) = 2 * 2 ^ (R.bits - 1) := by
      rw [pow_bits]
      push_cast
      rfl
    have hle := Int.le_bmod (x := n) hpos
    have hlt := Int.bmod_lt (x := n) hpos
    rw [hpow] at hle hlt
    omega
  · have hpos' : (0 : ℤ) < 2 ^ R.bits := Int.pow_pos (by decide)
    exact ⟨Int.emod_nonneg n hpos'.ne', Int.le_sub_one_of_lt (Int.emod_lt_of_pos n hpos')⟩

/-- A natural number is not converted to a greater one. -/
theorem convert_le (R : IntegralType) (n : ℕ) : R.convert n ≤ n := by
  have hle : (n : ℤ) % 2 ^ R.bits ≤ n := by
    exact_mod_cast Nat.mod_le n (2 ^ R.bits)
  rw [convert]
  split_ifs
  · rw [Int.bmod_eq_emod]
    push_cast
    split_ifs
    · have hpos : (0 : ℤ) < 2 ^ R.bits := Int.pow_pos (by decide)
      omega
    · omega
  · exact hle

end IntegralType

end Theory
