import K6Rs.Library.XorShift
import Mathlib.Data.Rat.Defs

/-! The generator that `randomSeed` puts in the place of `Math.random`. The bitwise operators of a
script work on signed 32-bit integers. -/

namespace K6Rs

/-- The state of a seed: `seed | 0`, or 1 for 0. -/
def seedState (seed : ℤ) : BitVec 32 :=
  let state := BitVec.ofInt 32 seed
  if state = 0 then 1 else state

def nextState (state : BitVec 32) : BitVec 32 :=
  let state := state ^^^ (state <<< 13)
  let state := state ^^^ state.sshiftRight 17
  state ^^^ (state <<< 5)

/-- A call of `Math.random`: its value, and the state after it. -/
def mathRandom (state : BitVec 32) : ℚ × BitVec 32 :=
  let state := nextState state
  (state.toNat / 4294967296, state)

/-- The state after a number of draws. -/
def stateAfter (seed : ℤ) (n : ℕ) : BitVec 32 :=
  (fun state => (mathRandom state).2)^[n] (seedState seed)

end K6Rs
