import K6Rs.Library.Semaphore
import K6Rs.Library.StepSystem
import K6Rs.Library.Text

/-! The lifecycle of the control surface: reads and writes of the setup data, the hooks that
run setup and teardown, and the close at the end of the run. A hook and a write hold the
lifecycle lock, a read does not. The data, the closing flag and the lock are each accessed
in events of their own. -/

namespace K6Rs

inductive LifecycleOp where
  | hook (setup : Bool)
  | putSetup (data : Option Str)
  | closeLifecycle
  deriving DecidableEq

inductive LifecycleOutcome where
  /-- A hook returns its data, a write nothing. -/
  | ok (data : Option Str)
  /-- "execution is shutting down". -/
  | shuttingDown
  /-- The hook's call returned an error. -/
  | failed
  /-- The future was dropped at one of its awaits. -/
  | dropped
  /-- The close got the lock. -/
  | closed
  | timedOut
  deriving DecidableEq

/-- Where a call stands. -/
inductive LifecyclePc where
  | idle
  | called (op : LifecycleOp)
  | locking (op : LifecycleOp)
  /-- The call has the lock, and has not looked at the closing flag. -/
  | entered (op : LifecycleOp)
  | checked (op : LifecycleOp)
  /-- The hook's call is awaited; `cancelled` tells that the abort cancelled its token. -/
  | calling (setup : Bool) (data : Option Str) (cancelled : Bool)
  | returned (setup : Bool) (data : Option Str)
  /-- The hook has found the flag unset again, and is about to store what setup returned. -/
  | storing (data : Option Str)
  /-- The guard of the lock is about to be dropped. -/
  | leaving (op : LifecycleOp) (outcome : LifecycleOutcome)
  | done (op : LifecycleOp) (outcome : LifecycleOutcome)
  deriving DecidableEq

/-- What happens to the setup data. -/
inductive SetupAccess where
  | read (data : Option Str)
  /-- The hook of the call `c` is invoked with `data`. -/
  | invoked (c : ℕ) (setup : Bool) (data : Option Str)
  | wrote (c : ℕ) (data : Option Str)
  deriving DecidableEq

structure LifecycleControl where
  setupData : Option Str
  lifecycleLock : Semaphore ℕ
  closing : Bool
  abort : Bool
  calls : ℕ → LifecyclePc
  /-- The accesses to the setup data, in their order. -/
  history : List SetupAccess

namespace LifecycleControl

def new : LifecycleControl where
  setupData := none
  lifecycleLock := .new 1
  closing := false
  abort := false
  calls := fun _ => .idle
  history := []

inductive Event where
  /-- `setup_data()`. -/
  | read
  | call (c : ℕ) (op : LifecycleOp)
  /-- The call asks for the lock. -/
  | lock (c : ℕ)
  | locked (c : ℕ)
  /-- The call looks at the closing flag. -/
  | check (c : ℕ)
  | invoke (c : ℕ)
  /-- The abort wins the `select!` of a setup hook. -/
  | abortSeen (c : ℕ)
  /-- The hook's call ends, with an error when there is no result. -/
  | returns (c : ℕ) (result : Option (Option Str))
  | store (c : ℕ)
  | leave (c : ℕ)
  | timeout (c : ℕ)
  /-- The future of the call is dropped. -/
  | drop (c : ℕ)
  /-- A REST stop. -/
  | stop
  /-- The server shuts down. -/
  | shutdown

def setCall (l : LifecycleControl) (c : ℕ) (pc : LifecyclePc) : LifecycleControl :=
  { l with calls := Function.update l.calls c pc }

def write (l : LifecycleControl) (c : ℕ) (data : Option Str) : LifecycleControl :=
  { l with setupData := data, history := l.history ++ [.wrote c data] }

def step (l : LifecycleControl) : Event → Option LifecycleControl
  | .read => some { l with history := l.history ++ [.read l.setupData] }
  | .call c op =>
      if l.calls c = .idle then
        some { l.setCall c (.called op) with
          closing := l.closing || decide (op = .closeLifecycle) }
      else none
  | .lock c =>
      match l.calls c with
      | .called op =>
          some { l.setCall c (.locking op) with lifecycleLock := l.lifecycleLock.acquire c }
      | _ => none
  | .locked c =>
      match l.calls c with
      | .locking op =>
          if c ∈ l.lifecycleLock.holding then
            -- The close drops the guard that it gets.
            some (l.setCall c (if op = .closeLifecycle then .leaving op .closed else .entered op))
          else none
      | _ => none
  | .check c =>
      match l.calls c with
      | .entered op =>
          some (l.setCall c (if l.closing then .leaving op .shuttingDown else .checked op))
      | .returned setup data =>
          some (l.setCall c
            (if l.closing then .leaving (.hook setup) .shuttingDown
            else if setup then .storing data else .leaving (.hook setup) (.ok data)))
      | _ => none
  | .invoke c =>
      match l.calls c with
      | .checked (.hook setup) =>
          some { l.setCall c (.calling setup l.setupData false) with
            history := l.history ++ [.invoked c setup l.setupData] }
      | _ => none
  | .abortSeen c =>
      match l.calls c with
      | .calling true data false =>
          if l.abort then some (l.setCall c (.calling true data true)) else none
      | _ => none
  | .returns c result =>
      match l.calls c with
      | .calling setup _ _ =>
          some (l.setCall c
            (match result with
            | some data => .returned setup data
            | none => .leaving (.hook setup) .failed))
      | _ => none
  | .store c =>
      match l.calls c with
      | .checked (.putSetup data) =>
          some ((l.write c data).setCall c (.leaving (.putSetup data) (.ok none)))
      | .storing data =>
          some ((l.write c data).setCall c (.leaving (.hook true) (.ok data)))
      | _ => none
  | .leave c =>
      match l.calls c with
      | .leaving op outcome =>
          some { l.setCall c (.done op outcome) with lifecycleLock := l.lifecycleLock.release c }
      | _ => none
  | .timeout c =>
      match l.calls c with
      | .locking .closeLifecycle =>
          some { l.setCall c (.done .closeLifecycle .timedOut) with
            lifecycleLock := l.lifecycleLock.cancel c }
      | _ => none
  | .drop c =>
      match l.calls c with
      | .called op => some (l.setCall c (.done op .dropped))
      | .locking op =>
          some { l.setCall c (.done op .dropped) with
            lifecycleLock := l.lifecycleLock.cancel c }
      | .calling setup _ _ =>
          some { l.setCall c (.done (.hook setup) .dropped) with
            lifecycleLock := l.lifecycleLock.release c }
      | _ => none
  | .stop => some { l with abort := true }
  | .shutdown => some { l with closing := true }

end LifecycleControl

def lifecycleSystem : StepSystem LifecycleControl LifecycleControl.Event where
  init l := l = .new
  step := LifecycleControl.step

end K6Rs
