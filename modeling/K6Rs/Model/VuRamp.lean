import K6Rs.Model.FloatCurve

/-! The ramping-VUs schedule: how many VUs should be active at a time of a piecewise-linear ramp,
and how many the run allocates for it. -/

namespace K6Rs

/-- `f64::round`, exactly: the nearest integer, and half-way cases away from zero. -/
def roundHalfAway (x : ℚ) : ℤ := if x < 0 then -⌊-x + 1 / 2⌋ else ⌊x + 1 / 2⌋

/-- A cast to `u32` saturates. -/
def saturateU32 (n : ℤ) : ℕ := min n.toNat (2 ^ 32 - 1)

/-- A stage on the time axis, with the VUs at its ends. -/
structure VuSegment where
  stageStart : ℕ
  stageEnd : ℕ
  fromVus : ℕ
  toVus : ℕ

structure VuRampSchedule where
  timeline : List VuSegment
  totalDuration : ℕ

namespace VuRampSchedule

/-- The timeline of the stages from `offset` on, and where it ends. The sum of two durations that is
no duration is a panic. -/
def build (offset prevTarget : ℕ) : List Stage → Option (List VuSegment × ℕ)
  | [] => some ([], offset)
  | stage :: stages =>
      let stageEnd := offset + stage.duration
      if durationMax < stageEnd then none
      else do
        let (timeline, total) ← build stageEnd stage.target stages
        return (⟨offset, stageEnd, prevTarget, stage.target⟩ :: timeline, total)

def new (startVus : ℕ) (stages : List Stage) : Option VuRampSchedule := do
  let (timeline, total) ← build 0 startVus stages
  return ⟨timeline, total⟩

/-- The loop over the segments; past all stages no VU is active. -/
def activeAt (elapsed : ℕ) : List VuSegment → ℕ
  | [] => 0
  | seg :: rest =>
      if seg.stageStart ≤ elapsed ∧ elapsed < seg.stageEnd then
        let stageDuration := secs (seg.stageEnd - seg.stageStart)
        let stageElapsed := secs (elapsed - seg.stageStart)
        let progress := stageElapsed / stageDuration
        saturateU32 (roundHalfAway (seg.fromVus + ((seg.toVus : ℚ) - seg.fromVus) * progress))
      else activeAt elapsed rest

def interpolate (s : VuRampSchedule) (elapsed : ℕ) : ℕ := activeAt elapsed s.timeline

end VuRampSchedule

/-- The size of the pool of a ramping-VUs scenario. -/
def rampingPoolVus (startVus : ℕ) (stages : List Stage) : ℕ :=
  max ((stages.map Stage.target).max?.getD startVus) startVus

def scenarioMaxVus : ExecutorType → ℕ
  | .constantVus vus _ => vus
  | .rampingVus startVus stages _ => max ((stages.map Stage.target).max?.getD startVus) startVus
  | .constantArrivalRate _ _ _ preAllocatedVus maxVus => maxVus.getD preAllocatedVus
  | .rampingArrivalRate _ _ _ preAllocatedVus maxVus => maxVus.getD preAllocatedVus
  | .perVuIterations vus _ _ => vus
  | .sharedIterations vus _ _ => vus

end K6Rs
