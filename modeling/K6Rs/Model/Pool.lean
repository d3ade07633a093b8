import Mathlib.Logic.Function.Basic
import Mathlib.Data.Fintype.Basic
import Mathlib.Algebra.BigOperators.Group.Finset.Basic

/-! The loop that drives one VU, and a pool of VUs that share their counters and the
hard-stop token. An executor supplies the control port: what a VU does between being
asked for its next iteration and the answer is given by the locations `χ`. -/

namespace K6Rs

/-- The outcome a VU publishes for an iteration. -/
inductive IterationOutcome where
  | completed
  | errored
  | interrupted
  deriving DecidableEq

/-- The counters of the iterations that ended. -/
structure Tally where
  completed : ℕ
  errored : ℕ
  interrupted : ℕ
  deriving DecidableEq

namespace Tally

instance : Zero Tally := ⟨⟨0, 0, 0⟩⟩

instance : Add Tally := ⟨fun a b =>
  ⟨a.completed + b.completed, a.errored + b.errored, a.interrupted + b.interrupted⟩⟩

def total (t : Tally) : ℕ := t.completed + t.errored + t.interrupted

def interruption : Tally := ⟨0, 0, 1⟩

end Tally

/-- What the outcome of the finished iteration adds to the counters. -/
def tallyOutcome (result : Option IterationOutcome) : Tally :=
  match result with
  | some .completed => ⟨1, 0, 0⟩
  | some .errored => ⟨0, 1, 0⟩
  | some .interrupted => ⟨0, 0, 1⟩
  | none => 0

/-! ## The driver of one VU -/

/-- Where the driver of a VU stands; `done` counts the iterations that reached their
boundary. -/
inductive DriverPc (χ : Type) where
  /-- The coroutine is not built yet. -/
  | unbuilt
  /-- `control.next(done)` is called. -/
  | entering (done : ℕ)
  /-- The control has tallied the last iteration and decides. -/
  | deciding (done : ℕ) (loc : χ)
  /-- The coroutine was resumed with `RunNext`. -/
  | running (done : ℕ)
  /-- The coroutine was resumed with `Stop`. -/
  | stopping (done : ℕ)
  /-- The driver has returned, or the coroutine could not be built. -/
  | gone
  deriving DecidableEq

/-- One VU. The last three fields count, for this VU, the iterations it started, those
that were tallied, and the interruptions that were counted without an iteration. -/
structure Vu (χ : Type) where
  pc : DriverPc χ
  result : Option IterationOutcome
  started : ℕ
  tallied : ℕ
  strays : ℕ

namespace Vu

variable {χ : Type}

def new : Vu χ := ⟨.unbuilt, none, 0, 0, 0⟩

inductive Event (χ : Type) where
  | build
  | buildFailed
  /-- The control tallies the finished iteration and goes to a location. -/
  | tally (loc : χ)
  | move (loc : χ)
  | answer (go : Bool)
  /-- The coroutine publishes an outcome and yields at the iteration boundary. -/
  | boundary (outcome : IterationOutcome)
  /-- The hard-stop token fires while the coroutine is parked. -/
  | hardCancel
  /-- The coroutine returns. -/
  | finish

/-- The step of one VU, with what it adds to the shared counters. -/
def step (hard : Bool) (vu : Vu χ) : Event χ → Option (Vu χ × Tally)
  | .build =>
      match vu.pc with
      | .unbuilt => some ({ vu with pc := .entering 0 }, 0)
      | _ => none
  | .buildFailed =>
      match vu.pc with
      | .unbuilt => some ({ vu with pc := .gone }, 0)
      | _ => none
  | .tally loc =>
      match vu.pc with
      | .entering 0 => some ({ vu with pc := .deciding 0 loc }, 0)
      | .entering (k + 1) =>
          some ({ vu with pc := .deciding (k + 1) loc, tallied := vu.tallied + 1 },
            tallyOutcome vu.result)
      | _ => none
  | .move loc =>
      match vu.pc with
      | .deciding k _ => some ({ vu with pc := .deciding k loc }, 0)
      | _ => none
  | .answer go =>
      match vu.pc with
      | .deciding k _ =>
          if go then some ({ vu with pc := .running k, started := vu.started + 1 }, 0)
          else some ({ vu with pc := .stopping k }, 0)
      | _ => none
  | .boundary outcome =>
      match vu.pc with
      | .running k => some ({ vu with pc := .entering (k + 1), result := some outcome }, 0)
      | _ => none
  | .hardCancel =>
      if !hard then none
      else
        match vu.pc with
        | .running _ =>
            some ({ vu with pc := .gone, tallied := vu.tallied + 1 }, .interruption)
        -- Resumed with `Stop` before any iteration, the coroutine still evaluates the
        -- script, whose top level can park on an operation.
        | .stopping 0 => some ({ vu with pc := .gone, strays := vu.strays + 1 }, .interruption)
        | _ => none
  | .finish =>
      match vu.pc with
      | .stopping _ => some ({ vu with pc := .gone }, 0)
      | _ => none

end Vu

/-! ## The pool -/

structure Pool (n : ℕ) (χ : Type) where
  vus : Fin n → Vu χ
  tally : Tally
  /-- Whether the hard-stop token has fired. -/
  hard : Bool

namespace Pool

variable {n : ℕ} {χ : Type}

def new : Pool n χ := ⟨fun _ => Vu.new, 0, false⟩

def step (p : Pool n χ) (v : Fin n) (e : Vu.Event χ) : Option (Pool n χ) :=
  ((p.vus v).step p.hard e).map fun (vu, d) =>
    { p with vus := Function.update p.vus v vu, tally := p.tally + d }

def fireHard (p : Pool n χ) : Pool n χ := { p with hard := true }

/-- Every driver has returned. -/
def Joined (p : Pool n χ) : Prop := ∀ v, (p.vus v).pc = .gone

instance [DecidableEq χ] (p : Pool n χ) : Decidable p.Joined := Nat.decidableForallFin _

def started (p : Pool n χ) : ℕ := ∑ v, (p.vus v).started

def strays (p : Pool n χ) : ℕ := ∑ v, (p.vus v).strays

/-- The hard stop would cut off the VU `v`, which was never granted an iteration. -/
def Stray (p : Pool n χ) (v : Fin n) : Prop := (p.vus v).pc = .stopping 0

end Pool

end K6Rs
