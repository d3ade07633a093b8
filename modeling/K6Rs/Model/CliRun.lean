import K6Rs.Model.Control

/-! A run of the command line with a REST server: the phases in their order, from the wait
for the start to the exit code. Patches are served in between, whatever the phase. -/

namespace K6Rs

/-- Where the command stands. -/
inductive CliPc where
  /-- In `wait_for_start`. -/
  | waiting
  | started (start : Bool)
  /-- The setup hook is awaited. -/
  | setup
  | scenarios (start : Bool)
  | workload (start : Bool)
  | teardown
  /-- The lifecycle is closed, or about to be. -/
  | closing
  /-- The execution has ended; summary, console and outputs are written. -/
  | flushing
  /-- The server has been shut down. -/
  | shutdown (thresholdsFailed : Bool)
  /-- The process has exited with a code of its own choice. -/
  | exited (code : ℕ)
  /-- An error was returned from `main`. -/
  | failed
  deriving DecidableEq

structure CliRun where
  control : Control 1
  pc : CliPc
  noSetup : Bool
  noTeardown : Bool

namespace CliRun

def new (paused : Bool) (executor scenario : Str) (cancel noSetup noTeardown : Bool) : CliRun where
  control := .new paused executor scenario cancel
  pc := .waiting
  noSetup
  noTeardown

inductive Event where
  /-- `PATCH /v1/status`. -/
  | patch (body : List UInt8)
  /-- A signal, a threshold that aborts, or a scenario that fails cancels the run. -/
  | interrupt
  | wait
  | look (now : ℕ)
  | poll
  | awake
  | giveUp
  | beginSetup
  | setupDone (ok : Bool)
  | beginScenarios
  | scenariosDone (ok : Bool)
  | teardownDone (ok : Bool)
  | finish (now : ℕ)
  /-- Everything is written and the server shut down; an error ends the command. -/
  | flushed (ok : Bool) (thresholdsFailed : Bool)
  | exit

/-- The command has exited, and the server with it. -/
def gone (r : CliRun) : Bool :=
  match r.pc with
  | .exited _ | .failed => true
  | _ => false

/-- The control surface takes a step, and the command stands at `pc` then. -/
def controlled (reader : JsonReader) (r : CliRun) (e : Control.Event 1)
    (pc : Control 1 → CliPc) : Option CliRun :=
  (r.control.step reader e).map fun control => { r with control, pc := pc control }

/-- A request or a signal, while the command is there. -/
def fromOutside (reader : JsonReader) (r : CliRun) (e : Control.Event 1) : Option CliRun :=
  if r.gone then none else r.controlled reader e fun _ => r.pc

/-- A step of `wait_for_start`; it returns when its waiter is idle again. -/
def waitForStart (reader : JsonReader) (r : CliRun) (e : Control.Event 1) : Option CliRun :=
  if r.pc = .waiting then
    r.controlled reader e fun control =>
      if control.waiters 0 = .idle then .started (r.control.granted < control.granted) else .waiting
  else none

def exitCode (r : CliRun) (thresholdsFailed : Bool) : ℕ :=
  if r.control.execution.stopped then 103 else if thresholdsFailed then 99 else 0

def step (reader : JsonReader) (r : CliRun) : Event → Option CliRun
  | .patch body => r.fromOutside reader (.patch body)
  | .interrupt => r.fromOutside reader .interrupt
  | .wait => r.waitForStart reader (.wait 0)
  | .look now => r.waitForStart reader (.look 0 now)
  | .poll => r.waitForStart reader (.poll 0)
  | .awake => r.waitForStart reader (.awake 0)
  | .giveUp => r.waitForStart reader (.giveUp 0)
  | .beginSetup =>
      match r.pc with
      | .started start =>
          if start && !r.noSetup then r.controlled reader (.phase 6) fun _ => .setup
          else some { r with pc := .scenarios start }
      | _ => none
  | .setupDone ok =>
      if r.pc = .setup then
        -- The error of a setup hook that a stop has cut short is dropped.
        some { r with pc := if ok || r.control.execution.stopped then .scenarios true else .failed }
      else none
  | .beginScenarios =>
      match r.pc with
      | .scenarios start => r.controlled reader (.phase 7) fun _ => .workload start
      | _ => none
  | .scenariosDone ok =>
      match r.pc with
      | .workload start =>
          if !ok then some { r with pc := .failed }
          else if start && !r.noTeardown then
            r.controlled reader (.phase 8) fun _ => .teardown
          else some { r with pc := .closing }
      | _ => none
  | .teardownDone ok =>
      if r.pc = .teardown then some { r with pc := if ok then .closing else .failed } else none
  | .finish now =>
      if r.pc = .closing then r.controlled reader (.finish now) fun _ => .flushing else none
  | .flushed ok thresholdsFailed =>
      if r.pc = .flushing then
        some { r with pc := if ok then .shutdown thresholdsFailed else .failed }
      else none
  | .exit =>
      match r.pc with
      | .shutdown thresholdsFailed => some { r with pc := .exited (r.exitCode thresholdsFailed) }
      | _ => none

end CliRun

def cliSystem (reader : JsonReader) : StepSystem CliRun CliRun.Event where
  init r := ∃ paused executor scenario cancel noSetup noTeardown,
    r = .new paused executor scenario cancel noSetup noTeardown
  step := CliRun.step reader

end K6Rs
