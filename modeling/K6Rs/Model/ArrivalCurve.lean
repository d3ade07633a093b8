import Mathlib.Data.Rat.Floor
import Mathlib.Algebra.Order.Field.Basic

/-! The arrival curve: how many iterations of a piecewise-linear rate schedule should
have started by a given time. Durations are in nanoseconds, rates are exact. -/

namespace K6Rs

/-- `Duration::as_secs_f64`, exactly. -/
def secs (nanos : ℕ) : ℚ := nanos / 10 ^ 9

structure Stage where
  duration : ℕ
  target : ℕ

/-- A stage on the time axis, with the rates at its ends. -/
structure Segment where
  stageStart : ℕ
  stageEnd : ℕ
  fromRate : ℚ
  toRate : ℚ

structure ArrivalCurve where
  timeline : List Segment
  totalDuration : ℕ
  timeUnitSecs : ℚ

namespace ArrivalCurve

/-- The timeline of the stages from `offset` on, and where it ends. -/
def build (offset : ℕ) (prevRate : ℚ) : List Stage → List Segment × ℕ
  | [] => ([], offset)
  | stage :: stages =>
      let stageEnd := offset + stage.duration
      let (timeline, total) := build stageEnd stage.target stages
      (⟨offset, stageEnd, prevRate, stage.target⟩ :: timeline, total)

def new (startRate : ℚ) (stages : List Stage) (timeUnit : ℕ) : ArrivalCurve :=
  let (timeline, total) := build 0 startRate stages
  ⟨timeline, total, secs timeUnit⟩

def constant (rate timeUnit duration : ℕ) : ArrivalCurve :=
  new rate [⟨duration, rate⟩] timeUnit

/-- The loop over the segments; `area` is the integral over those before. -/
def areaUpTo (elapsed : ℕ) : List Segment → ℚ → ℚ
  | [], area => area
  | seg :: rest, area =>
      if elapsed ≤ seg.stageStart then area
      else
        let stageDur := secs (seg.stageEnd - seg.stageStart)
        if stageDur ≤ 0 then areaUpTo elapsed rest area
        else
          let u := secs (min elapsed seg.stageEnd - seg.stageStart)
          areaUpTo elapsed rest
            (area + (seg.fromRate * u + (seg.toRate - seg.fromRate) * u * u / (2 * stageDur)))

def expectedArrivals (curve : ArrivalCurve) (elapsed : ℕ) : ℚ :=
  areaUpTo elapsed curve.timeline 0 / curve.timeUnitSecs

/-- The loop over the segments; past all of them the rate is zero. -/
def rateAt (elapsed : ℕ) (timeUnitSecs : ℚ) : List Segment → ℚ
  | [] => 0
  | seg :: rest =>
      if seg.stageStart ≤ elapsed ∧ elapsed < seg.stageEnd then
        let stageDuration := secs (seg.stageEnd - seg.stageStart)
        let stageElapsed := secs (elapsed - seg.stageStart)
        let progress := stageElapsed / stageDuration
        let rateInTimeUnit := seg.fromRate + (seg.toRate - seg.fromRate) * progress
        rateInTimeUnit / timeUnitSecs
      else rateAt elapsed timeUnitSecs rest

def interpolateRate (curve : ArrivalCurve) (elapsed : ℕ) : ℚ :=
  rateAt elapsed curve.timeUnitSecs curve.timeline

end ArrivalCurve

end K6Rs
