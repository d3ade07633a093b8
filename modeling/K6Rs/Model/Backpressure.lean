import K6Rs.Library.Semaphore
import K6Rs.Library.StepSystem
import Mathlib.Data.UInt

/-! Backpressure: a semaphore bounds the requests in flight, and a counter of its own tells
how many there are. An acquire counts up after it got its permit, and the drop of a permit
counts down before it gives the permit back. -/

namespace K6Rs

/-- Where a call of `acquire` or `try_acquire` stands, up to the drop of its permit. -/
inductive PermitPc where
  | idle
  /-- The future of `acquire_owned` waits, or was handed a permit it has not seen. -/
  | acquiring
  /-- `acquire_owned` has returned; the permit is not counted yet. -/
  | acquired
  /-- The `InFlightPermit` is there. -/
  | inFlight
  /-- The drop has counted the permit off, and has yet to give it back. -/
  | dropping
  deriving DecidableEq

structure Backpressure where
  semaphore : Semaphore ℕ
  maxInFlight : ℕ
  currentInFlight : UInt64
  calls : ℕ → PermitPc

namespace Backpressure

/-- `Semaphore::MAX_PERMITS`. -/
def MAX_PERMITS : ℕ := 2 ^ 61 - 1

/-- `Backpressure::new`; the semaphore panics when it gets too many permits. -/
def new (maxInFlight : ℕ) : Option Backpressure :=
  if maxInFlight ≤ MAX_PERMITS then some ⟨.new maxInFlight, maxInFlight, 0, fun _ => .idle⟩
  else none

def inFlight (b : Backpressure) : ℕ := b.currentInFlight.toNat

def availablePermits (b : Backpressure) : ℕ := b.semaphore.permits

/-- The permits that a call holds, or that its future was handed. -/
def heldPermits (b : Backpressure) : ℕ := b.semaphore.holding.length

/-- The call `c` has a permit to give back: its own, or one its future was handed. -/
def Holds (b : Backpressure) (c : ℕ) : Prop :=
  match b.calls c with
  | .idle => False
  | .acquiring => c ∉ b.semaphore.waiting
  | .acquired | .inFlight | .dropping => True

inductive Event where
  | acquire (c : ℕ)
  /-- The future of `acquire` finds that it was handed a permit. -/
  | wake (c : ℕ)
  /-- The future of `acquire` is dropped while it waits. -/
  | cancel (c : ℕ)
  | tryAcquire (c : ℕ)
  /-- `fetch_add`, and the call returns. -/
  | count (c : ℕ)
  /-- `fetch_sub` in the drop of the permit. -/
  | countOff (c : ℕ)
  /-- The semaphore gets its permit back. -/
  | giveBack (c : ℕ)

def setCall (b : Backpressure) (c : ℕ) (pc : PermitPc) : Backpressure :=
  { b with calls := Function.update b.calls c pc }

def step (b : Backpressure) : Event → Option Backpressure
  | .acquire c =>
      if b.calls c = .idle then
        some { b.setCall c (if 0 < b.semaphore.permits then .acquired else .acquiring) with
          semaphore := b.semaphore.acquire c }
      else none
  | .wake c =>
      if b.calls c = .acquiring ∧ c ∈ b.semaphore.holding then some (b.setCall c .acquired)
      else none
  | .cancel c =>
      if b.calls c = .acquiring then
        some { b.setCall c .idle with semaphore := b.semaphore.cancel c }
      else none
  | .tryAcquire c =>
      if b.calls c = .idle then
        if 0 < b.semaphore.permits then
          some { b.setCall c .acquired with semaphore := b.semaphore.acquire c }
        else some b
      else none
  | .count c =>
      if b.calls c = .acquired then
        some { b.setCall c .inFlight with currentInFlight := b.currentInFlight + 1 }
      else none
  | .countOff c =>
      if b.calls c = .inFlight then
        some { b.setCall c .dropping with currentInFlight := b.currentInFlight - 1 }
      else none
  | .giveBack c =>
      if b.calls c = .dropping then
        some { b.setCall c .idle with semaphore := b.semaphore.release c }
      else none

end Backpressure

/-- Backpressure that was created with `maxInFlight`. -/
def backpressureSystem (maxInFlight : ℕ) : StepSystem Backpressure Backpressure.Event where
  init b := Backpressure.new maxInFlight = some b
  step := Backpressure.step

end K6Rs
