import K6Rs.Library.Double
import K6Rs.Model.Config

/-! The arrival curve in the floats of the machine, and the dispatch loop that compares its counter
with it. -/

namespace K6Rs

open FloatOps

/-- The longest duration: the seconds are a 64-bit integer. -/
def durationMax : ℕ := 2 ^ 64 * secondNanos - 1

/-- `Duration::as_secs_f64`. -/
def asSecsF64 (nanos : ℕ) : Double :=
  add (ofNat (nanos / secondNanos)) (div (ofNat (nanos % secondNanos)) (ofNat secondNanos))

structure FloatSegment where
  stageStart : ℕ
  stageEnd : ℕ
  fromRate : Double
  toRate : Double

structure FloatCurve where
  timeline : List FloatSegment
  totalDuration : ℕ
  timeUnitSecs : Double

namespace FloatCurve

/-- The timeline of the stages from `offset` on, and where it ends. The sum of two durations that is
no duration is a panic. -/
def build (offset : ℕ) (prevRate : Double) : List Stage → Option (List FloatSegment × ℕ)
  | [] => some ([], offset)
  | stage :: stages =>
      let stageEnd := offset + stage.duration
      if durationMax < stageEnd then none
      else do
        let (timeline, total) ← build stageEnd (ofNat stage.target) stages
        return (⟨offset, stageEnd, prevRate, ofNat stage.target⟩ :: timeline, total)

def new (startRate : Double) (stages : List Stage) (timeUnit : ℕ) : Option FloatCurve := do
  let (timeline, total) ← build 0 startRate stages
  return ⟨timeline, total, asSecsF64 timeUnit⟩

def constant (rate timeUnit duration : ℕ) : Option FloatCurve :=
  new (ofNat rate) [⟨duration, rate⟩] timeUnit

def areaUpTo (elapsed : ℕ) : List FloatSegment → Double → Double
  | [], area => area
  | seg :: rest, area =>
      if elapsed ≤ seg.stageStart then area
      else
        let stageDur := asSecsF64 (seg.stageEnd - seg.stageStart)
        if le stageDur zero then areaUpTo elapsed rest area
        else
          let u := asSecsF64 (min elapsed seg.stageEnd - seg.stageStart)
          areaUpTo elapsed rest
            (add area
              (add (mul seg.fromRate u)
                (div (mul (mul (sub seg.toRate seg.fromRate) u) u) (mul (ofNat 2) stageDur))))

/-- The area under the rates up to `elapsed`, in arrivals of a time unit of one second. -/
def area (curve : FloatCurve) (elapsed : ℕ) : Double := areaUpTo elapsed curve.timeline zero

def expectedArrivals (curve : FloatCurve) (elapsed : ℕ) : Double :=
  div (curve.area elapsed) curve.timeUnitSecs

/-- What a pass of the coordinator at `elapsed` compares its counter with. -/
def target (curve : FloatCurve) (elapsed : ℕ) : Double :=
  curve.expectedArrivals (min elapsed curve.totalDuration)

end FloatCurve

/-- The curve that the run builds for an executor that is driven by arrivals. -/
def ExecutorType.curve : ExecutorType → Option FloatCurve
  | .constantArrivalRate rate timeUnit duration _ _ => FloatCurve.constant rate timeUnit duration
  | .rampingArrivalRate startRate stages timeUnit _ _ =>
      FloatCurve.new (ofNat startRate) stages timeUnit
  | _ => none

def ExecutorType.timeUnit : ExecutorType → Option ℕ
  | .constantArrivalRate _ timeUnit _ _ _ => some timeUnit
  | .rampingArrivalRate _ _ timeUnit _ _ => some timeUnit
  | _ => none

/-! ## The dispatch loop -/

/-- An arrival is due. -/
def arrivalDue (target : Double) (dispatched : ℕ) : Bool :=
  le (add (ofNat dispatched) (ofNat 1)) target

/-- The counter after the pass, which is a 64-bit integer and wraps around. -/
def dispatchPass (target : Double) : ℕ → ℕ → Option ℕ
  | 0, _ => none
  | fuel + 1, dispatched =>
      if arrivalDue target dispatched then dispatchPass target fuel ((dispatched + 1) % 2 ^ 64)
      else some dispatched

/-- The pass from this counter performs finitely many dispatches. -/
def PassEnds (target : Double) (dispatched : ℕ) : Prop :=
  ∃ fuel, (dispatchPass target fuel dispatched).isSome

/-- At every elapsed time the target is a finite number, and a pass ends from every counter. -/
def FloatCurve.DispatchesFinitely (curve : FloatCurve) : Prop :=
  ∀ elapsed, (curve.target elapsed).IsFinite ∧
    ∀ dispatched < 2 ^ 64, PassEnds (curve.target elapsed) dispatched

end K6Rs
