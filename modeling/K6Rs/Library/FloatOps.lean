import Mathlib.Data.Rat.Floor
import Mathlib.Algebra.Order.Ring.Abs

/-! The operations of double-precision floats that a program uses, as an interface,
and the exact rationals as one instance of it. What is proved for every instance
holds for the rounded arithmetic as well. -/

class FloatOps (F : Type) where
  /-- The float a literal or an integer is converted to. -/
  ofRat : ℚ → F
  add : F → F → F
  sub : F → F → F
  mul : F → F → F
  div : F → F → F
  abs : F → F
  lt : F → F → Bool
  le : F → F → Bool
  eq : F → F → Bool
  /-- The largest finite float. -/
  maxValue : F
  /-- The least finite float. -/
  minValue : F
  /-- The distance from `1` to the next float. -/
  epsilon : F
  /-- Conversion to a 64-bit integer: toward zero and saturating. -/
  toU64 : F → ℕ

/-- The order of floats by their bit patterns, read as integers. -/
class FloatBits (F : Type) where
  bitsLt : F → F → Bool

/-- The sign is the highest bit, and below it a pattern grows with the absolute value. -/
instance : FloatBits ℚ where
  bitsLt x y := if 0 ≤ x then y < 0 || x < y else y < 0 && |x| < |y|

namespace FloatOps

variable {F : Type} [FloatOps F]

def ofNat (n : ℕ) : F := ofRat n

def zero : F := ofRat 0

/-- The larger of two floats; a float that is not equal to itself is passed over. -/
def maxNum (x y : F) : F := if !eq x x then y else if !eq y y then x else if lt x y then y else x

def clamp (x lo hi : F) : F := if lt x lo then lo else if lt hi x then hi else x

/-- The largest finite double as a rational number. -/
def maxDouble : ℚ := 2 ^ 1024 - 2 ^ 971

theorem maxDouble_pos : 0 < maxDouble := by
  rw [maxDouble, sub_pos]
  exact pow_lt_pow_right₀ one_lt_two (by decide)

instance : FloatOps ℚ where
  ofRat q := q
  add := (· + ·)
  sub := (· - ·)
  mul := (· * ·)
  div := (· / ·)
  abs := (|·|)
  lt x y := x < y
  le x y := x ≤ y
  eq x y := x = y
  maxValue := maxDouble
  minValue := -maxDouble
  epsilon := (2 ^ 52)⁻¹
  toU64 q := min ⌊q⌋₊ (2 ^ 64 - 1)

@[simp] theorem ofNat_rat (n : ℕ) : (ofNat n : ℚ) = n := rfl

@[simp] theorem zero_rat : (zero : ℚ) = 0 := rfl

@[simp] theorem div_rat (x y : ℚ) : div x y = x / y := rfl

@[simp] theorem lt_rat (x y : ℚ) : lt x y = true ↔ x < y := decide_eq_true_iff

theorem ite_lt_eq_min (x y : ℚ) : (if lt x y = true then x else y) = min x y := by
  simp only [lt_rat]
  split
  · rename_i h
    exact (min_eq_left h.le).symm
  · rename_i h
    exact (min_eq_right (not_lt.mp h)).symm

theorem ite_lt_eq_max (x y : ℚ) : (if lt y x = true then x else y) = max x y := by
  simp only [lt_rat]
  split
  · rename_i h
    exact (max_eq_left h.le).symm
  · rename_i h
    exact (max_eq_right (not_lt.mp h)).symm

end FloatOps
