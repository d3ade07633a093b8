import K6Rs.Library.KeyMap
import K6Rs.Library.StepSystem

/-! One coroutine VU and the task that drives it: the operations its script registers,
the futures the scheduler makes of them, the driver loop that resolves what completed,
and the globals the outcome of an iteration is read from.

The script may do anything at any point where it runs, short of touching the driver's
own globals, so its choices are events, as are the order in which operations complete
and the points at which the interrupt breaks a call. -/

namespace K6Rs

/-! ## The operations of a VU -/

/-- The part of a VU that the coroutine and the scheduler share. -/
structure VuShared (μ ρ : Type) where
  nextOp : ℕ
  outstanding : ℕ
  /-- The operations the scheduler has not made futures of. -/
  registered : List ℕ
  /-- The results that only the driver loop takes. -/
  completed : List (ℕ × ρ)
  asyncMeta : KeyMap ℕ μ

namespace VuShared

variable {μ ρ : Type}

def new : VuShared μ ρ := ⟨0, 0, [], [], ∅⟩

def registerAsync (shared : VuShared μ ρ) (md : μ) : VuShared μ ρ where
  nextOp := shared.nextOp + 1
  outstanding := shared.outstanding + 1
  registered := shared.registered ++ [shared.nextOp]
  completed := shared.completed
  asyncMeta := shared.asyncMeta.upsert shared.nextOp fun _ => md

/-- The reset at the start of an iteration; the assertion before it is not compiled into
a release build. -/
def reset (shared : VuShared μ ρ) : VuShared μ ρ :=
  { shared with outstanding := 0, registered := [], completed := [], asyncMeta := ∅ }

/-- The driver loop takes the metadata of one result after the other; it panics where
there is none. -/
def resolveAll : List (ℕ × ρ) → KeyMap ℕ μ → Option (List (ℕ × μ) × KeyMap ℕ μ)
  | [], metas => some ([], metas)
  | (op, _) :: rest, metas =>
      match metas.find? op with
      | none => none
      | some md =>
          (resolveAll rest (metas.remove op)).map fun (resolved, metas) =>
            ((op, md) :: resolved, metas)

end VuShared

/-- A synchronous batch: the metadata of its requests stays on the coroutine's stack, the
scheduler fills in the results. -/
structure Batch (μ ρ : Type) where
  metas : List μ
  /-- The requests whose futures have not finished. -/
  inFlight : List ℕ
  results : List (Option ρ)
  remaining : ℕ
  /-- The responses with the index of their request, in the order in which they came. -/
  log : List (ℕ × ρ)
  deriving DecidableEq

namespace Batch

variable {μ ρ : Type}

def new (metas : List μ) : Batch μ ρ :=
  ⟨metas, List.range metas.length, List.replicate metas.length none, metas.length, []⟩

def done (batch : Batch μ ρ) (i : ℕ) (res : ρ) : Option (Batch μ ρ) :=
  if i ∈ batch.inFlight then
    some { batch with
      inFlight := batch.inFlight.erase i
      results := batch.results.set i (some res)
      remaining := batch.remaining - 1
      log := batch.log ++ [(i, res)] }
  else none

/-- The results paired with the metadata of the requests, once all are there. -/
def output (batch : Batch μ ρ) : Option (List (ρ × μ)) :=
  (batch.results.mapM id).map fun results => results.zip batch.metas

end Batch

/-! ## The values of an iteration -/

/-- A JS value, by what `String` makes of it: a text, or another value that it throws. -/
inductive JsValue where
  | printable (text : String)
  | throwing (thrown : JsValue)
  deriving DecidableEq

/-- How an exec function, or the promise it returned, ended. -/
inductive Fate where
  | fulfilled (value : JsValue)
  | failed (error : JsValue)
  deriving DecidableEq

/-- The promise an exec function returned; `chained` while the driver's callbacks wait. -/
inductive ExecPromise where
  | absent
  | pending (chained : Bool)
  | settled (fate : Fate) (chained : Bool)
  deriving DecidableEq

/-- The globals `__done`, `__failed`, `__ret` and `__err`. -/
structure Globals where
  done : Bool
  failed : Bool
  ret : String
  err : String
  deriving DecidableEq

namespace Globals

/-- The globals at bootstrap, and after the reset in `__k6_run_iteration`. -/
def clear : Globals := ⟨false, false, "", ""⟩

def succeed (g : Globals) (text : String) : Globals := { g with ret := text, done := true }

def fail (g : Globals) (text : String) : Globals :=
  { g with err := text, failed := true, done := true }

/-- `__k6_onFulfill` and `__k6_onReject`; a conversion that is cut off or throws leaves
the globals as they are. -/
def settle (g : Globals) (cut : Bool) : Fate → Globals
  | .fulfilled (.printable text) => if cut then g else g.succeed text
  | .failed (.printable text) => if cut then g else g.fail text
  | _ => g

end Globals

/-- The outcome as the coroutine publishes it. -/
inductive PublishedOutcome where
  | completed (value : String)
  | errored (message : String)
  | interrupted
  deriving DecidableEq

/-- The classification at the end of an iteration. -/
def classify (hard : Bool) (g : Globals) : PublishedOutcome :=
  if hard && (g.failed || !g.done) then .interrupted
  else if g.failed then .errored g.err
  else .completed g.ret

/-! ## The coroutine -/

/-- Where the script's code runs. -/
inductive Site where
  | init
  | exec
  /-- The result of the exec function is converted. -/
  | returned (value : JsValue)
  /-- The `catch` block converts what was thrown. -/
  | caught (error : JsValue)
  | jobs
  deriving DecidableEq

inductive CoroutinePc (μ ρ : Type) where
  /-- The control is asked for the first time. -/
  | fresh
  | script (site : Site)
  | awaitOne (site : Site)
  | awaitAll (site : Site) (batch : Batch μ ρ)
  /-- Before the reset of an iteration. -/
  | starting
  /-- Before the call of `__k6_run_iteration`. -/
  | calling
  /-- Before the driver's callbacks are chained to the returned promise. -/
  | chaining
  /-- At the top of the driver loop. -/
  | draining
  | checking
  | awaitPending
  | publishing
  | boundary
  | returned
  | unwound
  | panicked
  deriving DecidableEq

/-- What happened in the run, as far as the program does not keep it. -/
structure History (μ : Type) where
  /-- The iterations that started. -/
  iterations : ℕ
  /-- The metadata of each operation and the iteration that registered it, `0` for the
  init code. -/
  registrations : List (μ × ℕ)
  /-- Each resolved operation, with the metadata it was resolved with and the iteration. -/
  resolutions : List (ℕ × μ × ℕ)
  /-- The init code registered an operation, and no iteration has started since. -/
  initRegistered : Bool
  /-- The hard stop ended the last iteration with operations outstanding. -/
  hardStopped : Bool
  /-- An operation completed while a job was parked, in this turn of the driver loop. -/
  late : Bool
  /-- What the exec function of this iteration came to, within this iteration. -/
  fate : Option Fate
  /-- The published outcomes, each with the fate of its iteration and the state of the
  hard stop. -/
  published : List (PublishedOutcome × Option Fate × Bool)

def History.new {μ : Type} : History μ := ⟨0, [], [], false, false, false, none, []⟩

structure Coroutine (μ ρ : Type) where
  pc : CoroutinePc μ ρ
  shared : VuShared μ ρ
  /-- The futures of the scheduler. -/
  pending : List ℕ
  hard : Bool
  /-- Whether the coroutine was last resumed with `RunNext`. -/
  sig : Bool
  globals : Globals
  promises : ℕ → ExecPromise
  iterIndex : ℕ
  result : Option PublishedOutcome
  interrupted : ℕ
  history : History μ

inductive CoroutineEvent (μ ρ : Type) where
  | fireHard
  | next (go : Bool)
  | register (md : μ)
  | awaitOne
  | awaitAll (metas : List μ)
  /-- A future of the scheduler completes. -/
  | complete (op : ℕ) (res : ρ)
  | opDone
  | batchDone (i : ℕ) (res : ρ)
  | batchResume
  | initEnd
  | start
  /-- The interrupt breaks the call of `__k6_run_iteration` on entry. -/
  | entryCut
  | noExec
  | call
  | execReturn (value : JsValue)
  | execThrow (error : JsValue)
  | execPromise
  | execCut
  /-- The driver function goes on after the exec function. -/
  | proceed (cut : Bool)
  | settle (iteration : ℕ) (fate : Fate)
  | drain
  | react (iteration : ℕ) (cut : Bool)
  | jobsEnd
  | check
  | publish
  | hardCancel

namespace Coroutine

variable {μ ρ : Type}

def new : Coroutine μ ρ where
  pc := .fresh
  shared := .new
  pending := []
  hard := false
  sig := false
  globals := .clear
  promises _ := .absent
  iterIndex := 0
  result := none
  interrupted := 0
  history := .new

/-- A yield: the scheduler first makes futures of what was registered. -/
def yield (s : Coroutine μ ρ) (pc : CoroutinePc μ ρ) : Coroutine μ ρ :=
  { s with
    pc := pc
    shared := { s.shared with registered := [] }
    pending := s.pending ++ s.shared.registered }

def register (s : Coroutine μ ρ) (site : Site) (md : μ) : Coroutine μ ρ :=
  { s with
    shared := s.shared.registerAsync md
    history := { s.history with
      registrations := s.history.registrations ++ [(md, s.history.iterations)]
      initRegistered := s.history.initRegistered || site = .init } }

/-- Whether a job is parked on a synchronous operation. -/
def jobParked : CoroutinePc μ ρ → Bool
  | .awaitOne .jobs | .awaitAll .jobs _ => true
  | _ => false

/-- The pending operation is queued for the driver loop. -/
def queue (s : Coroutine μ ρ) (op : ℕ) (res : ρ) : Coroutine μ ρ :=
  { s with
    shared := { s.shared with completed := s.shared.completed ++ [(op, res)] }
    pending := s.pending.erase op
    history := { s.history with late := s.history.late || jobParked s.pc } }

/-- The start of an iteration, with the reset of the books. -/
def start (s : Coroutine μ ρ) : Coroutine μ ρ :=
  { s with
    pc := .calling
    shared := s.shared.reset
    history := { s.history with
      iterations := s.history.iterations + 1
      initRegistered := false
      hardStopped := false
      late := false
      fate := none } }

/-- The continuation of `__k6_run_iteration` after its call of the exec function. -/
def proceed (s : Coroutine μ ρ) (cut : Bool) : Option (Coroutine μ ρ) :=
  if cut && !s.hard then none
  else
    match s.pc with
    | .script (.returned value) =>
        if cut then some { s with pc := .draining }
        else
          match value with
          | .printable text => some { s with pc := .draining, globals := s.globals.succeed text }
          | .throwing thrown => some { s with pc := .script (.caught thrown) }
    | .script (.caught error) =>
        if cut then some { s with pc := .draining }
        else
          match error with
          | .printable text => some { s with pc := .draining, globals := s.globals.fail text }
          | .throwing _ => some { s with pc := .draining }
    | .chaining =>
        some { s with
          pc := .draining
          promises := Function.update s.promises s.iterIndex (.pending !cut) }
    | _ => none

/-- The points at which a promise can settle. -/
def canSettle : CoroutinePc μ ρ → Bool
  | .script _ | .draining => true
  | _ => false

def settle (s : Coroutine μ ρ) (iteration : ℕ) (fate : Fate) : Option (Coroutine μ ρ) :=
  match s.promises iteration with
  | .pending chained =>
      some { s with
        promises := Function.update s.promises iteration (.settled fate chained)
        history := { s.history with
          fate := if iteration = s.iterIndex then some fate else s.history.fate } }
  | _ => none

/-- The job of the driver's callback for a settled promise. -/
def react (s : Coroutine μ ρ) (iteration : ℕ) (cut : Bool) : Option (Coroutine μ ρ) :=
  if cut && !s.hard then none
  else
    match s.promises iteration with
    | .settled fate true =>
        some { s with
          promises := Function.update s.promises iteration (.settled fate false)
          globals := s.globals.settle cut fate }
    | _ => none

/-- The driver loop resolves what completed. -/
def drain (s : Coroutine μ ρ) : Coroutine μ ρ :=
  match VuShared.resolveAll s.shared.completed s.shared.asyncMeta with
  | none => { s with pc := .panicked }
  | some (resolved, metas) =>
      { s with
        pc := .script .jobs
        shared := { s.shared with
          outstanding := s.shared.outstanding - s.shared.completed.length
          completed := []
          asyncMeta := metas }
        history := { s.history with
          late := false
          resolutions := s.history.resolutions ++
            resolved.map fun (op, md) => (op, md, s.history.iterations) } }

/-- The iteration is over. -/
def leave (s : Coroutine μ ρ) : Coroutine μ ρ :=
  { s with
    pc := .publishing
    history := { s.history with hardStopped := s.hard && s.shared.outstanding != 0 } }

def check (s : Coroutine μ ρ) : Coroutine μ ρ :=
  if s.globals.done && s.shared.outstanding = 0 then s.leave
  else if s.hard then s.leave
  else s.yield .awaitPending

def publish (s : Coroutine μ ρ) : Coroutine μ ρ :=
  { s.yield .boundary with
    iterIndex := s.iterIndex + 1
    result := some (classify s.hard s.globals)
    history := { s.history with
      published := s.history.published ++
        [(classify s.hard s.globals, s.history.fate, s.hard)] } }

/-- Whether the coroutine is parked on an operation, so that it can be cut off. -/
def parked : CoroutinePc μ ρ → Bool
  | .awaitOne _ | .awaitAll _ _ | .awaitPending => true
  | _ => false

def step (s : Coroutine μ ρ) : CoroutineEvent μ ρ → Option (Coroutine μ ρ)
  | .fireHard => some { s with hard := true }
  | .next go =>
      match s.pc with
      | .fresh => some { s with pc := .script .init, sig := go }
      | .boundary => some { s with pc := if go then .starting else .returned, sig := go }
      | _ => none
  | .register md =>
      match s.pc with
      | .script site => some (s.register site md)
      | _ => none
  | .awaitOne =>
      match s.pc with
      | .script site => some (s.yield (.awaitOne site))
      | _ => none
  | .awaitAll metas =>
      match s.pc with
      | .script site => some (s.yield (.awaitAll site (.new metas)))
      | _ => none
  | .complete op res =>
      if op ∈ s.pending then
        match s.pc with
        | .awaitOne _ | .awaitAll _ _ => some (s.queue op res)
        | .awaitPending => some { s.queue op res with pc := .draining }
        | _ => none
      else none
  | .opDone =>
      match s.pc with
      | .awaitOne site => some { s with pc := .script site }
      | _ => none
  | .batchDone i res =>
      match s.pc with
      | .awaitAll site batch =>
          (batch.done i res).map fun batch => { s with pc := .awaitAll site batch }
      | _ => none
  | .batchResume =>
      match s.pc with
      | .awaitAll site batch =>
          if batch.remaining = 0 then
            match batch.output with
            | some _ => some { s with pc := .script site }
            | none => some { s with pc := .panicked }
          else none
      | _ => none
  | .initEnd =>
      match s.pc with
      | .script .init => some { s with pc := if s.sig then .starting else .returned }
      | _ => none
  | .start =>
      match s.pc with
      | .starting => some s.start
      | _ => none
  | .entryCut =>
      match s.pc with
      | .calling => if s.hard then some { s with pc := .draining } else none
      | _ => none
  | .noExec =>
      match s.pc with
      | .calling => some { s with pc := .draining, globals := Globals.clear.succeed "undefined" }
      | _ => none
  | .call =>
      match s.pc with
      | .calling => some { s with pc := .script .exec, globals := .clear }
      | _ => none
  | .execReturn value =>
      match s.pc with
      | .script .exec =>
          some { s with
            pc := .script (.returned value)
            history := { s.history with fate := some (.fulfilled value) } }
      | _ => none
  | .execThrow error =>
      match s.pc with
      | .script .exec =>
          some { s with
            pc := .script (.caught error)
            history := { s.history with fate := some (.failed error) } }
      | _ => none
  | .execPromise =>
      match s.pc with
      | .script .exec => some { s with pc := .chaining }
      | _ => none
  | .execCut =>
      match s.pc with
      | .script .exec => if s.hard then some { s with pc := .draining } else none
      | _ => none
  | .proceed cut => s.proceed cut
  | .settle iteration fate => if canSettle s.pc then s.settle iteration fate else none
  | .drain =>
      match s.pc with
      | .draining => some s.drain
      | _ => none
  | .react iteration cut =>
      match s.pc with
      | .script .jobs => s.react iteration cut
      | _ => none
  | .jobsEnd =>
      match s.pc with
      | .script .jobs => some { s with pc := .checking }
      | _ => none
  | .check =>
      match s.pc with
      | .checking => some s.check
      | _ => none
  | .publish =>
      match s.pc with
      | .publishing => some s.publish
      | _ => none
  | .hardCancel =>
      if s.hard && parked s.pc then
        some { s with pc := .unwound, interrupted := s.interrupted + 1 }
      else none

end Coroutine

/-- A coroutine VU with its driver. -/
def coroutineSystem (μ ρ : Type) : StepSystem (Coroutine μ ρ) (CoroutineEvent μ ρ) where
  init s := s = .new
  step := Coroutine.step

end K6Rs
