import Mathlib.Logic.Function.Iterate
import Mathlib.Tactic.Common

/-! Xor-shifts of a bit vector: the vector xor its left shift, or its arithmetic right shift. Both
are linear; the left one is injective, the right one is not. -/

namespace XorShift

variable {w : ℕ} {x y : BitVec w} {n : ℕ}

def left (n : ℕ) (x : BitVec w) : BitVec w := x ^^^ (x <<< n)

def right (n : ℕ) (x : BitVec w) : BitVec w := x ^^^ x.sshiftRight n

theorem xor_xor_xor_comm (a b c d : BitVec w) :
    (a ^^^ b) ^^^ (c ^^^ d) = (a ^^^ c) ^^^ (b ^^^ d) := by
  ac_rfl

theorem left_xor (n : ℕ) (x y : BitVec w) : left n (x ^^^ y) = left n x ^^^ left n y := by
  rw [left, BitVec.shiftLeft_xor_distrib, xor_xor_xor_comm]
  rfl

theorem right_xor (n : ℕ) (x y : BitVec w) : right n (x ^^^ y) = right n x ^^^ right n y := by
  rw [right, BitVec.sshiftRight_xor_distrib, xor_xor_xor_comm]
  rfl

/-! ## Left shifts -/

theorem eq_shiftLeft_mul (h : x = x <<< n) (k : ℕ) : x = x <<< (n * k) := by
  induction k with
  | zero => simp
  | succ k ih =>
      rw [Nat.mul_succ, BitVec.shiftLeft_add, ← ih]
      exact h

theorem left_eq_zero_iff (hn : 0 < n) : left n x = 0 ↔ x = 0 := by
  constructor
  · intro h
    have hfix := eq_shiftLeft_mul (BitVec.xor_eq_zero_iff.mp h) w
    rw [BitVec.shiftLeft_eq_zero (Nat.le_mul_of_pos_left w hn)] at hfix
    exact hfix
  · rintro rfl
    simp [left]

theorem left_injective (hn : 0 < n) (h : left n x = left n y) : x = y := by
  rw [← BitVec.xor_eq_zero_iff, ← left_xor] at h
  exact BitVec.xor_eq_zero_iff.mp ((left_eq_zero_iff hn).mp h)

/-! ## Arithmetic right shifts -/

theorem eq_sshiftRight_mul (h : x = x.sshiftRight n) (k : ℕ) : x = x.sshiftRight (n * k) := by
  induction k with
  | zero => simp
  | succ k ih =>
      rw [Nat.mul_succ, BitVec.sshiftRight_add, ← ih]
      exact h

/-- The sign fills a vector that an arithmetic right shift does not change. -/
theorem right_eq_zero_iff (hn : 0 < n) : right n x = 0 ↔ x = 0 ∨ x = BitVec.allOnes w := by
  constructor
  · intro h
    have hfix := eq_sshiftRight_mul (BitVec.xor_eq_zero_iff.mp h) w
    have hle : w ≤ n * w := Nat.le_mul_of_pos_left w hn
    cases hmsb : x.msb with
    | false =>
        left
        rw [hfix]
        ext i hi
        simp [BitVec.getElem_sshiftRight, hmsb, Nat.not_lt.mpr (Nat.le_add_right_of_le hle)]
    | true =>
        right
        rw [hfix]
        ext i hi
        simp [BitVec.getElem_sshiftRight, hmsb, Nat.not_lt.mpr (Nat.le_add_right_of_le hle)]
  · rintro (rfl | rfl)
    · simp [right]
    · refine BitVec.xor_eq_zero_iff.mpr ?_
      ext i hi
      simp only [BitVec.getElem_allOnes, BitVec.getElem_sshiftRight,
        BitVec.msb_allOnes (Nat.zero_lt_of_lt hi)]
      split
      · rfl
      · rfl

theorem msb_right (n : ℕ) (x : BitVec w) : (right n x).msb = false := by
  simp [right]

end XorShift
