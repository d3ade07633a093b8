import K6Rs.Library.StepSystem
import K6Rs.Model.Pool

/-! The executors with a planned number of iterations: a budget that all VUs share and
claim from, and a fixed number for each VU. Every event is one step of one VU or of
the outside world; a claim is a load and a compare-exchange of their own. -/

namespace K6Rs

/-- Which executor runs, with its planned iterations. -/
inductive IterationsExecutor where
  | shared (totalIterations : ℕ)
  | perVu (iterationsPerVu : ℕ)
  deriving DecidableEq

/-- Where a VU stands in its control after its tally. -/
inductive ClaimLoc where
  /-- About to check for cancellation and the deadline. -/
  | checking
  /-- About to load the remaining budget. -/
  | loading
  /-- About to exchange the value it loaded. -/
  | swapping (cur : ℕ)
  deriving DecidableEq

structure IterationsState (n : ℕ) where
  pool : Pool n ClaimLoc
  /-- The shared budget; only the shared executor uses it. -/
  remaining : ℕ
  /-- Whether the run was cancelled or the deadline has passed. -/
  stopped : Bool

inductive IterationsEvent (n : ℕ) where
  | stop
  | fireHard
  | build (v : Fin n)
  | tally (v : Fin n)
  | check (v : Fin n)
  /-- A relaxed load of the budget returns `cur`. -/
  | load (v : Fin n) (cur : ℕ)
  | swap (v : Fin n) (spurious : Bool)
  | boundary (v : Fin n) (outcome : IterationOutcome)
  | hardCancel (v : Fin n)
  | finish (v : Fin n)

structure RunSummary where
  completed : ℕ
  dropped : ℕ
  errored : ℕ
  interrupted : ℕ
  deriving DecidableEq

def RunSummary.default : RunSummary := ⟨0, 0, 0, 0⟩

namespace IterationsState

variable {n : ℕ}

def new (ex : IterationsExecutor) : IterationsState n where
  pool := .new
  remaining :=
    match ex with
    | .shared totalIterations => totalIterations
    | .perVu _ => 0
  stopped := false

def withPool (s : IterationsState n) (p : Option (Pool n ClaimLoc)) : Option (IterationsState n) :=
  p.map fun p => { s with pool := p }

/-- The decision before a claim. -/
def check (ex : IterationsExecutor) (s : IterationsState n) (v : Fin n) :
    Option (IterationsState n) :=
  match (s.pool.vus v).pc with
  | .deciding k .checking =>
      match ex with
      | .shared _ =>
          if s.stopped then s.withPool (s.pool.step v (.answer false))
          else s.withPool (s.pool.step v (.move .loading))
      | .perVu iterationsPerVu =>
          s.withPool (s.pool.step v (.answer (k < iterationsPerVu && !s.stopped)))
  | _ => none

/-- The budget only falls, so a relaxed load returns no less than what is left. -/
def load (s : IterationsState n) (v : Fin n) (cur : ℕ) : Option (IterationsState n) :=
  match (s.pool.vus v).pc with
  | .deciding _ .loading =>
      if s.remaining ≤ cur then
        if cur = 0 then s.withPool (s.pool.step v (.answer false))
        else s.withPool (s.pool.step v (.move (.swapping cur)))
      else none
  | _ => none

/-- `compare_exchange_weak`, which may fail without cause. -/
def swap (s : IterationsState n) (v : Fin n) (spurious : Bool) : Option (IterationsState n) :=
  match (s.pool.vus v).pc with
  | .deciding _ (.swapping cur) =>
      if s.remaining = cur ∧ spurious = false then
        { s with remaining := cur - 1 }.withPool (s.pool.step v (.answer true))
      else s.withPool (s.pool.step v (.move .loading))
  | _ => none

def step (ex : IterationsExecutor) (s : IterationsState n) :
    IterationsEvent n → Option (IterationsState n)
  | .stop => some { s with stopped := true }
  | .fireHard => some { s with pool := s.pool.fireHard }
  | .build v => s.withPool (s.pool.step v .build)
  | .tally v => s.withPool (s.pool.step v (.tally .checking))
  | .check v => s.check ex v
  | .load v cur =>
      match ex with
      | .shared _ => s.load v cur
      | .perVu _ => none
  | .swap v spurious =>
      match ex with
      | .shared _ => s.swap v spurious
      | .perVu _ => none
  | .boundary v outcome => s.withPool (s.pool.step v (.boundary outcome))
  | .hardCancel v => s.withPool (s.pool.step v .hardCancel)
  | .finish v => s.withPool (s.pool.step v .finish)

/-- The iterations the run was planned for. -/
def planned (n : ℕ) : IterationsExecutor → ℕ
  | .shared totalIterations => totalIterations
  | .perVu iterationsPerVu => iterationsPerVu * n

/-- The summary the executor returns once every VU has stopped. -/
def summary (ex : IterationsExecutor) (s : IterationsState n) : RunSummary :=
  if n = 0 then .default
  else
    { completed := s.pool.tally.completed
      dropped := planned n ex - s.pool.tally.total
      errored := s.pool.tally.errored
      interrupted := s.pool.tally.interrupted }

end IterationsState

/-- The executors `run_shared_iterations` and `run_per_vu_iterations` with `n` VUs. -/
def iterationsSystem (n : ℕ) (ex : IterationsExecutor) :
    StepSystem (IterationsState n) (IterationsEvent n) where
  init s := s = .new ex
  step := IterationsState.step ex

/-- The step cuts off a VU that was declined before its first iteration. -/
def IterationsEvent.Stray {n : ℕ} (s : IterationsState n) : IterationsEvent n → Prop
  | .hardCancel v => s.pool.Stray v
  | _ => False

end K6Rs
