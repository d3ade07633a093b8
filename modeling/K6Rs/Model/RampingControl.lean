import K6Rs.Library.StepSystem
import K6Rs.Model.VuRamp
import Mathlib.Data.Fintype.Basic

/-! The controls of the ramping-VUs executor, with the gauge of the active VUs that they share with
the VUs of the other executors. The flag of a control belongs to one thread, so that the change of
the gauge and the change of the flag are one step. The gauge is that of a run with a control server;
without one there is no gauge. -/

namespace K6Rs

/-- The gauge of the active VUs, and how often one was taken from zero, when it wraps around. -/
structure VuGauge where
  value : UInt32
  underflows : ℕ

namespace VuGauge

def fetchAdd (g : VuGauge) : VuGauge := { g with value := g.value + 1 }

def fetchSub (g : VuGauge) : VuGauge :=
  ⟨g.value - 1, if g.value = 0 then g.underflows + 1 else g.underflows⟩

end VuGauge

/-- Where a control stands. -/
inductive RampPc where
  /-- The control is not made yet. -/
  | unmade
  /-- The VU runs an iteration, or has not asked for its first one. -/
  | outside
  /-- At the head of the loop in `next`. -/
  | looping
  /-- Inactive, until the desired count changes or the run stops. -/
  | parked
  /-- `next` has returned `false`. -/
  | stopping
  | dropped
  deriving DecidableEq

structure RampingControl where
  pc : RampPc
  active : Bool
  /-- The version of the desired count that it has seen. -/
  seen : ℕ

namespace RampingControl

def unmade : RampingControl := ⟨.unmade, false, 0⟩

def goto (c : RampingControl) (pc : RampPc) : RampingControl := { c with pc := pc }

/-- `RampingControl::active`, with the gauge afterwards. -/
def setActive (c : RampingControl) (active : Bool) (g : VuGauge) : RampingControl × VuGauge :=
  if active ≠ c.active then
    ({ c with active := active }, if active then g.fetchAdd else g.fetchSub)
  else (c, g)

/-- The pass of the loop in `next` after the desired count was read and marked as seen. -/
def pass (c : RampingControl) (version : ℕ) (active : Bool) (g : VuGauge) :
    RampingControl × VuGauge :=
  let (c, g) := { c with seen := version }.setActive active g
  (c.goto (if active then .outside else .parked), g)

/-- `Drop`. -/
def drop (c : RampingControl) (g : VuGauge) : RampingControl × VuGauge :=
  let (c, g) := c.setActive false g
  (c.goto .dropped, g)

end RampingControl

/-- Where the controller thread stands. -/
inductive ControllerPc where
  | driving
  | stopping
  | exited
  deriving DecidableEq

/-- `n` controls, and `m` VUs of other executors. -/
structure RampState (n m : ℕ) where
  gauge : VuGauge
  /-- Whether a VU of another executor holds its `ActiveVu`. -/
  others : Fin m → Bool
  controls : Fin n → RampingControl
  desired : ℕ
  version : ℕ
  last : ℕ
  controller : ControllerPc
  stop : Bool

namespace RampState

variable {n m : ℕ}

def new : RampState n m :=
  ⟨⟨0, 0⟩, fun _ => false, fun _ => .unmade, 0, 0, 2 ^ 32 - 1, .driving, false⟩

inductive Event (n m : ℕ) where
  /-- A pass of the controller. -/
  | tick (elapsed : ℕ)
  | stop
  /-- The controller exits and drops the sender. -/
  | exit
  /-- `ActiveVu::new` of another executor. -/
  | hold (w : Fin m)
  /-- The drop of an `ActiveVu`. -/
  | release (w : Fin m)
  | build (v : Fin n)
  | buildFailed (v : Fin n)
  /-- `next` is called. -/
  | next (v : Fin n)
  /-- A pass of the loop in `next`. -/
  | decide (v : Fin n)
  | changed (v : Fin n)
  | stopped (v : Fin n)
  /-- The run of the VU ends, at a boundary or in the middle, and drops the control. -/
  | drop (v : Fin n)

/-- The control `v` and the gauge are replaced. -/
def put (s : RampState n m) (v : Fin n) (p : RampingControl × VuGauge) : RampState n m :=
  { s with controls := Function.update s.controls v p.1, gauge := p.2 }

def goto (s : RampState n m) (v : Fin n) (pc : RampPc) : RampState n m :=
  s.put v ((s.controls v).goto pc, s.gauge)

def tick (schedule : VuRampSchedule) (s : RampState n m) (elapsed : ℕ) : RampState n m :=
  let want := schedule.interpolate elapsed
  if want ≠ s.last then { s with desired := want, version := s.version + 1, last := want } else s

/-- One pass of the loop in `next`. -/
def decide (s : RampState n m) (v : Fin n) : RampState n m :=
  if s.stop then s.goto v .stopping
  else s.put v ((s.controls v).pass s.version (v.val % 2 ^ 32 < s.desired) s.gauge)

def step (schedule : VuRampSchedule) (s : RampState n m) : Event n m → Option (RampState n m)
  | .tick elapsed =>
      if s.controller = .driving ∧ elapsed < schedule.totalDuration then
        some (s.tick schedule elapsed)
      else none
  | .stop =>
      if s.controller = .driving then some { s with stop := true, controller := .stopping }
      else none
  | .exit => if s.controller = .stopping then some { s with controller := .exited } else none
  | .hold w =>
      if s.others w then none
      else some { s with others := Function.update s.others w true, gauge := s.gauge.fetchAdd }
  | .release w =>
      if s.others w then
        some { s with others := Function.update s.others w false, gauge := s.gauge.fetchSub }
      else none
  | .build v => if (s.controls v).pc = .unmade then some (s.goto v .outside) else none
  | .buildFailed v => if (s.controls v).pc = .unmade then some (s.goto v .dropped) else none
  | .next v => if (s.controls v).pc = .outside then some (s.goto v .looping) else none
  | .decide v => if (s.controls v).pc = .looping then some (s.decide v) else none
  | .changed v =>
      if (s.controls v).pc = .parked ∧
        (s.version ≠ (s.controls v).seen ∨ s.controller = .exited) then
        some (s.goto v .looping)
      else none
  | .stopped v => if (s.controls v).pc = .parked ∧ s.stop then some (s.goto v .stopping) else none
  | .drop v =>
      if (s.controls v).pc = .unmade ∨ (s.controls v).pc = .dropped then none
      else some (s.put v ((s.controls v).drop s.gauge))

/-- The controls whose active flag is set. -/
def activeControls (s : RampState n m) : ℕ := ∑ v, (s.controls v).active.toNat

/-- What the VUs of the other executors contribute to the gauge. -/
def held (s : RampState n m) : ℕ := ∑ w, (s.others w).toNat

end RampState

def rampSystem (n m : ℕ) (schedule : VuRampSchedule) :
    StepSystem (RampState n m) (RampState.Event n m) where
  init := (· = .new)
  step := RampState.step schedule

end K6Rs
