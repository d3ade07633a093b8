import K6Rs.Library.StepSystem
import K6Rs.Model.ArrivalCurve
import K6Rs.Model.Pool

/-! The arrival-rate executor: one coordinator that hands arrivals to idle VUs through
their dispatch channels, and VUs that report idle through one shared channel. Every
event is one step of the coordinator, of one VU, or of the outside world. -/

namespace K6Rs

/-- Where a VU stands in `ArrivalControl::next` after its tally. -/
inductive ArrivalLoc where
  /-- About to send its id on the idle channel. -/
  | reporting
  /-- Waiting on its dispatch channel. -/
  | parked
  deriving DecidableEq

inductive CoordinatorPc where
  /-- Collecting the first idle reports. -/
  | startup
  | top
  | draining
  /-- Firing the arrivals that are due at `elapsed`. -/
  | dispatching (elapsed : ℕ)
  | gone
  deriving DecidableEq

structure ArrivalState (n : ℕ) where
  pool : Pool n ArrivalLoc
  coordinator : CoordinatorPc
  idle : List (Fin n)
  idleChannel : List (Fin n)
  /-- The dispatches in each VU's channel. -/
  runNext : Fin n → ℕ
  cancelled : Bool
  elapsed : ℕ
  dispatched : ℕ
  dropped : ℕ
  /-- Whether some VU was idle when the startup phase ended. -/
  ready : Bool
  /-- The VUs that arrivals were handed to, in order. -/
  handedTo : List (Fin n)

inductive ArrivalEvent (n : ℕ) where
  | cancel
  | fireHard
  | build (v : Fin n)
  | buildFailed (v : Fin n)
  | tally (v : Fin n)
  | report (v : Fin n)
  | receive (v : Fin n)
  | boundary (v : Fin n) (outcome : IterationOutcome)
  | hardCancel (v : Fin n)
  | finish (v : Fin n)
  | collect
  | startupEnd
  | loopTop
  | drain
  | drained (elapsed : ℕ)
  | dispatch
  | dispatchEnd

namespace ArrivalState

variable {n : ℕ}

def new : ArrivalState n where
  pool := .new
  coordinator := .startup
  idle := []
  idleChannel := []
  runNext _ := 0
  cancelled := false
  elapsed := 0
  dispatched := 0
  dropped := 0
  ready := false
  handedTo := []

def withPool (s : ArrivalState n) (p : Option (Pool n ArrivalLoc)) : Option (ArrivalState n) :=
  p.map fun p => { s with pool := p }

/-- The coordinator returns: its senders, the idle queue and the idle receiver go. -/
def exit (s : ArrivalState n) : ArrivalState n :=
  { s with coordinator := .gone, idle := [], idleChannel := [] }

/-- `idle_tx.send`, which fails once the coordinator is gone. -/
def report (s : ArrivalState n) (v : Fin n) : Option (ArrivalState n) :=
  match (s.pool.vus v).pc with
  | .deciding _ .reporting =>
      if s.coordinator = .gone then s.withPool (s.pool.step v (.answer false))
      else { s with idleChannel := s.idleChannel ++ [v] }.withPool (s.pool.step v (.move .parked))
  | _ => none

/-- `run_next_rx.recv`: a dispatch that is there comes before the end of the channel. -/
def receive (s : ArrivalState n) (v : Fin n) : Option (ArrivalState n) :=
  match (s.pool.vus v).pc with
  | .deciding _ .parked =>
      match s.runNext v with
      | r + 1 =>
          { s with runNext := Function.update s.runNext v r }.withPool
            (s.pool.step v (.answer true))
      | 0 =>
          if s.coordinator = .gone then s.withPool (s.pool.step v (.answer false)) else none
  | _ => none

/-- One arrival: it goes to the first idle VU, or it is dropped. -/
def fire (s : ArrivalState n) : ArrivalState n :=
  let s := { s with dispatched := s.dispatched + 1 }
  match s.idle with
  | id :: idle =>
      if (s.pool.vus id).pc = .gone then { s with idle := idle, dropped := s.dropped + 1 }
      else
        { s with
          idle := idle
          runNext := Function.update s.runNext id (s.runNext id + 1)
          handedTo := s.handedTo ++ [id] }
  | [] => { s with dropped := s.dropped + 1 }

/-- The arrivals that should have started by `elapsed`. -/
def target (curve : ArrivalCurve) (elapsed : ℕ) : ℚ :=
  curve.expectedArrivals (min elapsed curve.totalDuration)

def step (curve : ArrivalCurve) (s : ArrivalState n) : ArrivalEvent n → Option (ArrivalState n)
  | .cancel => some { s with cancelled := true }
  | .fireHard => some { s with pool := s.pool.fireHard }
  | .build v => s.withPool (s.pool.step v .build)
  | .buildFailed v => s.withPool (s.pool.step v .buildFailed)
  | .tally v => s.withPool (s.pool.step v (.tally .reporting))
  | .report v => s.report v
  | .receive v => s.receive v
  | .boundary v outcome => s.withPool (s.pool.step v (.boundary outcome))
  | .hardCancel v => s.withPool (s.pool.step v .hardCancel)
  | .finish v => s.withPool (s.pool.step v .finish)
  | .collect =>
      match s.coordinator, s.idleChannel with
      | .startup, id :: rest =>
          if s.idle.length < n then some { s with idle := s.idle ++ [id], idleChannel := rest }
          else none
      | _, _ => none
  | .startupEnd =>
      -- All VUs reported, the run was cancelled, or the channel stayed empty up to the
      -- startup deadline.
      if s.coordinator = .startup ∧ (n ≤ s.idle.length ∨ s.cancelled ∨ s.idleChannel = []) then
        if s.idle = [] then some s.exit else some { s with coordinator := .top, ready := true }
      else none
  | .loopTop =>
      if s.coordinator = .top then
        if s.cancelled then some s.exit else some { s with coordinator := .draining }
      else none
  | .drain =>
      match s.coordinator, s.idleChannel with
      | .draining, id :: rest => some { s with idle := s.idle ++ [id], idleChannel := rest }
      | _, _ => none
  | .drained elapsed =>
      if s.coordinator = .draining ∧ s.idleChannel = [] ∧ s.elapsed ≤ elapsed then
        some { s with coordinator := .dispatching elapsed, elapsed := elapsed }
      else none
  | .dispatch =>
      match s.coordinator with
      | .dispatching elapsed =>
          if (s.dispatched : ℚ) + 1 ≤ target curve elapsed then some s.fire else none
      | _ => none
  | .dispatchEnd =>
      match s.coordinator with
      | .dispatching elapsed =>
          if (s.dispatched : ℚ) + 1 ≤ target curve elapsed then none
          else if curve.totalDuration ≤ elapsed then some s.exit
          else some { s with coordinator := .top }
      | _ => none

/-- Some VU was idle when the clock started. -/
def Ready (s : ArrivalState n) : Prop := s.ready = true

/-- The coordinator and every VU have returned. -/
def Complete (s : ArrivalState n) : Prop := s.coordinator = .gone ∧ s.pool.Joined

end ArrivalState

/-- The executor `run_arrival_rate` with `n` VUs on a curve. -/
def arrivalSystem (n : ℕ) (curve : ArrivalCurve) :
    StepSystem (ArrivalState n) (ArrivalEvent n) where
  init s := s = .new
  step := ArrivalState.step curve

/-- The step cuts off a VU that was declined before its first iteration. -/
def ArrivalEvent.Stray {n : ℕ} (s : ArrivalState n) : ArrivalEvent n → Prop
  | .hardCancel v => s.pool.Stray v
  | _ => False

end K6Rs
