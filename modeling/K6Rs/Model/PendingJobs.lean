import Mathlib.Data.List.Basic

/-! The queue of the pending jobs of a JavaScript engine, the loop that drains it, and what the
driver of a VU decides after it. The engine takes the first job, runs it and reports an error when
it throws. -/

namespace K6Rs

/-- A pending job over the states `σ` of the heap: what it does to the heap, whether it throws, and
the jobs that it puts at the end of the queue. -/
inductive Job (σ : Type) where
  | mk (effect : σ → σ) (throws : σ → Bool) (enqueues : σ → List (Job σ))

namespace Job

variable {σ : Type}

def effect : Job σ → σ → σ
  | .mk effect _ _ => effect

def throws : Job σ → σ → Bool
  | .mk _ throws _ => throws

def enqueues : Job σ → σ → List (Job σ)
  | .mk _ _ enqueues => enqueues

end Job

structure JsRuntime (σ : Type) where
  heap : σ
  jobs : List (Job σ)
  /-- The jobs that have run. -/
  ran : List (Job σ)

/-- `Err(JobException)`. -/
structure JobException where
  deriving DecidableEq

namespace JsRuntime

variable {σ : Type}

/-- `Runtime::execute_pending_job`: whether there was a job. -/
def executePendingJob (rt : JsRuntime σ) : Except JobException Bool × JsRuntime σ :=
  match rt.jobs with
  | [] => (.ok false, rt)
  | job :: rest =>
      (if job.throws rt.heap then .error ⟨⟩ else .ok true,
        ⟨job.effect rt.heap, rest ++ job.enqueues rt.heap, rt.ran ++ [job]⟩)

/-- The loop, which goes on while a job was there and did not throw. -/
def drainPendingJobs : ℕ → JsRuntime σ → Option (JsRuntime σ)
  | 0, _ => none
  | fuel + 1, rt =>
      match rt.executePendingJob with
      | (.ok true, rt) => drainPendingJobs fuel rt
      | (_, rt) => some rt

/-- What the driver does after a drain. -/
inductive DriverDecision where
  /-- The iteration has settled, and the event loop is idle. -/
  | finish
  | interrupt
  /-- The coroutine yields until an operation completes. -/
  | wait
  deriving DecidableEq

/-- A pass of the driver loop after the completed operations were resolved. -/
def driverPass (done : σ → Bool) (outstanding : ℕ) (hard : Bool) (fuel : ℕ) (rt : JsRuntime σ) :
    Option (DriverDecision × JsRuntime σ) := do
  let rt ← drainPendingJobs fuel rt
  let settled := done rt.heap
  let idle := outstanding = 0
  return (if settled && idle then .finish else if hard then .interrupt else .wait, rt)

end JsRuntime

end K6Rs
