import K6Rs.Library.Semaphore
import K6Rs.Library.StepSystem

/-! The rate limiter behind the `rps` option: acquires take a permit of a semaphore that a
task tops up once a second. -/

namespace K6Rs

/-- The task that `start_replenish` spawns, with its `max_permits`. -/
inductive Replenisher where
  | idle
  | ticking (maxPermits : ℕ)
  | cancelled
  deriving DecidableEq

structure RateLimiterInner where
  semaphore : Semaphore ℕ
  replenisher : Replenisher
  deriving DecidableEq

namespace RateLimiter

/-- `RateLimiter::new`; without an inner part the rate is unlimited. -/
def new (rps : ℕ) : Option RateLimiterInner :=
  if rps = 0 then none else some ⟨.new rps, .idle⟩

end RateLimiter

namespace RateLimiterInner

inductive Event where
  /-- The caller `c` calls `acquire`. -/
  | call (c : ℕ)
  /-- The caller `c`, which was handed a permit, drops it and returns. -/
  | complete (c : ℕ)
  /-- The future of the waiting caller `c` is dropped. -/
  | abandon (c : ℕ)
  | startReplenish
  | tick
  | cancel
  deriving DecidableEq

namespace Event

def isCall : Event → Bool
  | .call _ => true
  | _ => false

def isComplete : Event → Bool
  | .complete _ => true
  | _ => false

end Event

def startReplenish (l : RateLimiterInner) : RateLimiterInner :=
  { l with replenisher := .ticking (l.semaphore.permits + 1) }

/-- One pass of the replenisher's loop on a tick of its interval. -/
def replenish (l : RateLimiterInner) (maxPermits : ℕ) : RateLimiterInner :=
  let available := l.semaphore.permits
  let toAdd := maxPermits - available
  if 0 < toAdd then { l with semaphore := l.semaphore.addPermits toAdd } else l

def step (l : RateLimiterInner) : Event → Option RateLimiterInner
  | .call c =>
      if c ∈ l.semaphore.waiting ∨ c ∈ l.semaphore.holding then none
      else some { l with semaphore := l.semaphore.acquire c }
  | .complete c =>
      if c ∈ l.semaphore.holding then some { l with semaphore := l.semaphore.release c }
      else none
  | .abandon c =>
      if c ∈ l.semaphore.waiting ∨ c ∈ l.semaphore.holding then
        some { l with semaphore := l.semaphore.cancel c }
      else none
  | .startReplenish =>
      match l.replenisher with
      | .idle => some l.startReplenish
      | _ => none
  | .tick =>
      match l.replenisher with
      | .ticking maxPermits => some (l.replenish maxPermits)
      | _ => none
  | .cancel =>
      match l.replenisher with
      | .ticking _ => some { l with replenisher := .cancelled }
      | _ => none

/-- The limiter of a test with the option `rps`. -/
def system (rps : ℕ) : StepSystem RateLimiterInner Event where
  init l := RateLimiter.new rps = some l
  step := RateLimiterInner.step

def calls (es : List Event) : ℕ := es.countP Event.isCall

def completions (es : List Event) : ℕ := es.countP Event.isComplete

/-- `ws` leads from `l` to `l'` without a tick, and a tick follows. -/
def Window (rps : ℕ) (l : RateLimiterInner) (ws : List Event) (l' : RateLimiterInner) : Prop :=
  (system rps).execWhen (fun _ e => e ≠ .tick) l ws = some l' ∧ (l'.step .tick).isSome = true

end RateLimiterInner

end K6Rs
