import K6Rs.Model.RandomSeed

/-! # The seeded generator

The shift to the right keeps the sign, so one state besides zero leads to zero. -/

namespace K6Rs

open XorShift

/-- The state that leads to zero: -67100673 as a signed integer. -/
def deadState : BitVec 32 := 0xFC001FFF

/-- No draw leaves a seed with the state zero, and no two states have the same successor. -/
structure KeepsState (seed : ℤ) : Prop where
  nonzero : ∀ n, stateAfter seed n ≠ 0
  injective : ∀ x y : BitVec 32, x ≠ 0 → y ≠ 0 → nextState x = nextState y → x = y

theorem nextState_eq (x : BitVec 32) : nextState x = left 5 (right 17 (left 13 x)) := rfl

theorem nextState_xor (x y : BitVec 32) : nextState (x ^^^ y) = nextState x ^^^ nextState y := by
  simp only [nextState_eq, left_xor, right_xor]

theorem nextState_eq_zero_iff {x : BitVec 32} : nextState x = 0 ↔ x = 0 ∨ x = deadState := by
  rw [nextState_eq, left_eq_zero_iff (by decide), right_eq_zero_iff (by decide),
    left_eq_zero_iff (by decide)]
  have hdead : left 13 deadState = BitVec.allOnes 32 := by decide
  constructor
  · rintro (h | h)
    · exact .inl h
    · exact .inr (left_injective (n := 13) (by decide) (h.trans hdead.symm))
  · rintro (h | rfl)
    · exact .inl h
    · exact .inr hdead

/-- Two states have the same successor exactly when they are equal or differ by the dead state. -/
theorem nextState_eq_nextState_iff {x y : BitVec 32} :
    nextState x = nextState y ↔ x = y ∨ x ^^^ y = deadState := by
  rw [← BitVec.xor_eq_zero_iff, ← nextState_xor]
  exact nextState_eq_zero_iff.trans (or_congr_left BitVec.xor_eq_zero_iff)

/-- No state is followed by the dead one: before the last shift its sign would be set. -/
theorem nextState_ne_deadState (x : BitVec 32) : nextState x ≠ deadState := by
  intro h
  have hback : left 5 (0xB2739C1F : BitVec 32) = deadState := by decide
  have hmid : right 17 (left 13 x) = 0xB2739C1F :=
    left_injective (n := 5) (by decide) (h.trans hback.symm)
  have hmsb := msb_right 17 (left 13 x)
  rw [hmid] at hmsb
  exact absurd hmsb (by decide)

theorem stateAfter_succ (seed : ℤ) (n : ℕ) :
    stateAfter seed (n + 1) = nextState (stateAfter seed n) :=
  Function.iterate_succ_apply' _ n _

theorem seedState_ne_zero (seed : ℤ) : seedState seed ≠ 0 := by
  rw [seedState]
  split
  · decide
  · assumption

/-- Every seed but the dead state keeps its states nonzero. -/
theorem stateAfter_ne_zero_iff (seed : ℤ) :
    (∀ n, stateAfter seed n ≠ 0) ↔ seedState seed ≠ deadState := by
  constructor
  · intro h hdead
    refine h 1 ?_
    rw [stateAfter_succ]
    exact nextState_eq_zero_iff.mpr (.inr hdead)
  · intro hseed n
    have halive : stateAfter seed n ≠ 0 ∧ stateAfter seed n ≠ deadState := by
      induction n with
      | zero => exact ⟨seedState_ne_zero seed, hseed⟩
      | succ n ih =>
          rw [stateAfter_succ]
          refine ⟨fun h => ?_, nextState_ne_deadState _⟩
          exact (nextState_eq_zero_iff.mp h).elim ih.1 ih.2
    exact halive.1

/-- The transition is injective for no seed. The states stay nonzero for every seed but one, and
exactly the states that differ by the dead one have the same successor. -/
theorem not_keepsState (seed : ℤ) :
    ¬KeepsState seed ∧ ((∀ n, stateAfter seed n ≠ 0) ↔ seedState seed ≠ deadState) ∧
      ∀ x y : BitVec 32, nextState x = nextState y ↔ x = y ∨ x ^^^ y = deadState := by
  refine ⟨fun h => ?_, stateAfter_ne_zero_iff seed, fun _ _ => nextState_eq_nextState_iff⟩
  have hone : (1 : BitVec 32) = 1 ^^^ deadState :=
    h.injective 1 (1 ^^^ deadState) (by decide) (by decide)
    (nextState_eq_nextState_iff.mpr (.inr (by decide)))
  exact absurd hone (by decide)

/-- With the seed -67100673, `Math.random` gives 0 from the first draw on. -/
theorem stateAfter_deadSeed : ¬KeepsState (-67100673) := by
  intro h
  exact h.nonzero 1 (by decide)

end K6Rs
