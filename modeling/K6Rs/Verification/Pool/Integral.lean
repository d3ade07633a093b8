import K6Rs.Library.StepSystem
import K6Rs.Verification.Pool.Curve
import Mathlib.Analysis.SpecialFunctions.Integrals.Basic

/-! The expected arrivals are the integral of the rate over the time that has elapsed. -/

namespace K6Rs

open MeasureTheory

theorem secs_sub {a b : ℕ} (h : b ≤ a) : secs (a - b) = secs a - secs b := by
  rw [secs, secs, secs, Nat.cast_sub h]
  ring

theorem secs_pos {a : ℕ} (h : 0 < a) : 0 < secs a := by
  rw [secs]
  positivity

/-- The line of a segment at a point of real time, in seconds. -/
noncomputable def Segment.lineAt (seg : Segment) (x : ℝ) : ℝ :=
  seg.fromRate + (seg.toRate - seg.fromRate) *
    ((x - secs seg.stageStart) / secs (seg.stageEnd - seg.stageStart))

theorem Segment.hasDerivAt_area (seg : Segment) (dur : ℚ) (start unit x : ℝ) (hdur : dur ≠ 0) :
    HasDerivAt
      (fun x : ℝ => (seg.fromRate * (x - start) +
        (seg.toRate - seg.fromRate) * (x - start) * (x - start) / (2 * dur)) / unit)
      ((seg.fromRate + (seg.toRate - seg.fromRate) * ((x - start) / dur)) / unit) x := by
  have hcast : (dur : ℝ) ≠ 0 := by exact_mod_cast hdur
  have hx : HasDerivAt (fun x : ℝ => x - start) 1 x := (hasDerivAt_id x).sub_const start
  have hlinear := hx.const_mul (seg.fromRate : ℝ)
  have hsquare :=
    ((hx.const_mul ((seg.toRate : ℝ) - seg.fromRate)).mul hx).div_const (2 * (dur : ℝ))
  refine ((hlinear.add hsquare).div_const unit).congr_deriv ?_
  field_simp
  ring

/-- The area of the first `u` seconds of a segment is the integral of its line. -/
theorem Segment.integral_lineAt (seg : Segment) (unit : ℚ) {t : ℕ}
    (h : seg.stageStart < seg.stageEnd)
    (ht : seg.stageStart ≤ t) :
    ∫ x in (secs seg.stageStart : ℝ)..secs t, seg.lineAt x / unit =
      (seg.area (secs (seg.stageEnd - seg.stageStart)) (secs (t - seg.stageStart)) / unit : ℚ) := by
  have hdur : secs (seg.stageEnd - seg.stageStart) ≠ 0 := (secs_pos (by omega)).ne'
  unfold Segment.lineAt
  rw [intervalIntegral.integral_eq_sub_of_hasDerivAt
    (fun x _ => seg.hasDerivAt_area _ (secs seg.stageStart) unit x hdur)]
  · rw [secs_sub ht]
    simp [Segment.area]
  · apply Continuous.intervalIntegrable
    fun_prop

namespace ArrivalCurve

/-- The rate of the segments at a point of real time, found as `rateAt` finds it. -/
noncomputable def rateOver (timeUnitSecs : ℚ) : List Segment → ℝ → ℝ
  | [], _ => 0
  | seg :: rest, x =>
      if (secs seg.stageStart : ℝ) ≤ x ∧ x < secs seg.stageEnd then seg.lineAt x / timeUnitSecs
      else rateOver timeUnitSecs rest x

/-- The instantaneous rate on a real clock. -/
noncomputable def rateOverTime (curve : ArrivalCurve) : ℝ → ℝ :=
  rateOver curve.timeUnitSecs curve.timeline

theorem secs_cast_le {a b : ℕ} : (secs a : ℝ) ≤ secs b ↔ a ≤ b := by
  rw [Rat.cast_le, secs, secs, div_le_div_iff_of_pos_right (by positivity), Nat.cast_le]

theorem secs_cast_lt {a b : ℕ} : (secs a : ℝ) < secs b ↔ a < b := by
  rw [← not_le, secs_cast_le, not_le]

/-- On the ticks of the clock the two searches agree. -/
theorem rateOver_secs (elapsed : ℕ) (timeUnitSecs : ℚ) (l : List Segment) :
    rateOver timeUnitSecs l (secs elapsed) = rateAt elapsed timeUnitSecs l := by
  induction l with
  | nil => simp [rateOver, rateAt]
  | cons seg rest ih =>
      simp only [rateOver, rateAt, secs_cast_le, secs_cast_lt]
      split
      · rename_i h
        simp [Segment.lineAt, secs_sub h.1]
      · exact ih

/-! ## The two loops over built segments -/

theorem le_build_snd (offset : ℕ) (prevRate : ℚ) (stages : List Stage) :
    offset ≤ (build offset prevRate stages).2 := by
  induction stages generalizing offset prevRate with
  | nil => exact le_rfl
  | cons stage stages ih => exact (Nat.le_add_right _ _).trans (ih _ _)

theorem areaUpTo_build_of_le {t offset : ℕ} (h : t ≤ offset) (prevRate : ℚ) (stages : List Stage) :
    areaUpTo t (build offset prevRate stages).1 0 = 0 := by
  cases stages with
  | nil => rfl
  | cons stage stages => exact areaUpTo_cons_of_le h

/-- A stage of no duration adds no area. -/
theorem areaUpTo_build_of_empty (t offset : ℕ) (prevRate : ℚ) {stage : Stage}
    (h : stage.duration = 0) (stages : List Stage) :
    areaUpTo t (build offset prevRate (stage :: stages)).1 0 =
      areaUpTo t (build offset stage.target stages).1 0 := by
  rcases le_or_gt t offset with ht | ht
  · rw [areaUpTo_build_of_le ht, areaUpTo_build_of_le ht]
  · rw [build, h]
    exact areaUpTo_cons_of_empty ht (by simp [secs])

/-- Once a stage is over it adds its whole area. -/
theorem areaUpTo_build_of_lt {t offset : ℕ} (prevRate : ℚ) {stage : Stage} (stages : List Stage)
    (hdur : 0 < stage.duration) (ht : offset < t) :
    areaUpTo t (build offset prevRate (stage :: stages)).1 0 =
      Segment.area ⟨offset, offset + stage.duration, prevRate, stage.target⟩ (secs stage.duration)
        (secs (min t (offset + stage.duration) - offset)) +
        areaUpTo t (build (offset + stage.duration) stage.target stages).1 0 := by
  have hspan : offset + stage.duration - offset = stage.duration := by omega
  rw [build]
  simp only
  rw [areaUpTo_cons_of_lt ht (by simpa [hspan] using secs_pos hdur), hspan]

theorem areaUpTo_of_total_le (offset : ℕ) (prevRate : ℚ) (stages : List Stage) {t : ℕ}
    (h : (build offset prevRate stages).2 ≤ t) :
    areaUpTo t (build offset prevRate stages).1 0 =
      areaUpTo (build offset prevRate stages).2 (build offset prevRate stages).1 0 := by
  induction stages generalizing offset prevRate with
  | nil => rfl
  | cons stage stages ih =>
      have hrest := ih (offset + stage.duration) stage.target h
      have hle := le_build_snd (offset + stage.duration) stage.target stages
      have htotal : (build offset prevRate (stage :: stages)).2 =
        (build (offset + stage.duration) stage.target stages).2 := rfl
      rcases Nat.eq_zero_or_pos stage.duration with hdur | hdur
      · rw [hdur] at hrest htotal
        rw [areaUpTo_build_of_empty t _ _ hdur, areaUpTo_build_of_empty _ _ _ hdur, htotal]
        exact hrest
      · rw [htotal] at h ⊢
        rw [areaUpTo_build_of_lt _ _ hdur (by omega), areaUpTo_build_of_lt _ _ hdur (by omega),
          hrest, min_eq_right (hle.trans h), min_eq_right hle]

theorem rateOver_build_of_empty (timeUnitSecs : ℚ) (offset : ℕ) (prevRate : ℚ) {stage : Stage}
    (h : stage.duration = 0) (stages : List Stage) :
    rateOver timeUnitSecs (build offset prevRate (stage :: stages)).1 =
      rateOver timeUnitSecs (build offset stage.target stages).1 := by
  funext x
  rw [build, h]
  exact if_neg fun hx => absurd (hx.1.trans_lt hx.2) (lt_irrefl _)

/-! ## The integral -/

/-- The integral from the start of a list of stages, together with its existence. -/
theorem integral_rateOver_build (timeUnitSecs : ℚ) (offset : ℕ) (prevRate : ℚ)
    (stages : List Stage) {t : ℕ} (ht : offset ≤ t) :
    let rate := rateOver timeUnitSecs (build offset prevRate stages).1
    IntervalIntegrable rate volume (secs offset) (secs t) ∧
      ∫ x in (secs offset : ℝ)..secs t, rate x =
        (areaUpTo t (build offset prevRate stages).1 0 / timeUnitSecs : ℚ) := by
  induction stages generalizing offset prevRate with
  | nil =>
      intro rate
      have hrate : rate = fun _ => 0 := rfl
      rw [hrate]
      exact ⟨intervalIntegrable_const, by simp [build, areaUpTo]⟩
  | cons stage stages ih =>
      intro rate
      rcases ht.eq_or_lt with heq | hlt
      · rw [← heq, areaUpTo_build_of_le le_rfl]
        exact ⟨IntervalIntegrable.refl, by simp⟩
      rcases Nat.eq_zero_or_pos stage.duration with hdur | hdur
      · rw [areaUpTo_build_of_empty t _ _ hdur]
        have hrate : rate = rateOver timeUnitSecs (build offset stage.target stages).1 :=
          rateOver_build_of_empty timeUnitSecs offset prevRate hdur stages
        rw [hrate]
        exact ih offset stage.target ht
      have hspan : offset < offset + stage.duration := by omega
      let seg : Segment := ⟨offset, offset + stage.duration, prevRate, stage.target⟩
      have hline (x : ℝ) (hx : (secs offset : ℝ) ≤ x ∧ x < secs (offset + stage.duration)) :
          rate x = seg.lineAt x / timeUnitSecs := if_pos hx
      have hcont : Continuous fun x => seg.lineAt x / timeUnitSecs := by
        unfold Segment.lineAt
        fun_prop
      have harea {m : ℕ} (hm : offset ≤ m) :
          ∫ x in (secs offset : ℝ)..secs m, seg.lineAt x / timeUnitSecs =
            (seg.area (secs stage.duration) (secs (m - offset)) / timeUnitSecs : ℚ) := by
        have hlength : stage.duration = seg.stageEnd - seg.stageStart :=
          (Nat.add_sub_cancel_left ..).symm
        rw [hlength]
        exact seg.integral_lineAt timeUnitSecs hspan hm
      rw [areaUpTo_build_of_lt _ _ hdur hlt]
      -- The first segment, up to its end or up to `t`.
      have hfirst {m : ℕ} (hm : offset < m) (hend : m ≤ offset + stage.duration) :
          Set.EqOn (fun x => seg.lineAt x / timeUnitSecs) rate
            (Set.uIoo (secs offset : ℝ) (secs m)) := by
        intro x hx
        rw [Set.uIoo_of_le (secs_cast_le.mpr hm.le)] at hx
        exact (hline x ⟨hx.1.le, hx.2.trans_le (secs_cast_le.mpr hend)⟩).symm
      rcases le_or_gt t (offset + stage.duration) with hend | hend
      · rw [min_eq_left hend, areaUpTo_build_of_le hend, add_zero]
        refine ⟨(hcont.intervalIntegrable _ _).congr_uIoo (hfirst hlt hend), ?_⟩
        rw [← intervalIntegral.integral_congr_uIoo (hfirst hlt hend)]
        exact harea ht
      · obtain ⟨hint, hval⟩ := ih (offset + stage.duration) stage.target hend.le
        have hrest : Set.EqOn (rateOver timeUnitSecs
            (build (offset + stage.duration) stage.target stages).1) rate
            (Set.uIoo (secs (offset + stage.duration) : ℝ) (secs t)) := by
          intro x hx
          rw [Set.uIoo_of_le (secs_cast_le.mpr hend.le)] at hx
          exact (if_neg fun h => absurd h.2 (not_lt.mpr hx.1.le)).symm
        have hleft : IntervalIntegrable rate volume (secs offset) (secs
            (offset + stage.duration)) :=
          (hcont.intervalIntegrable _ _).congr_uIoo (hfirst hspan le_rfl)
        have hright := hint.congr_uIoo hrest
        refine ⟨hleft.trans hright, ?_⟩
        rw [← intervalIntegral.integral_add_adjacent_intervals hleft hright,
          ← intervalIntegral.integral_congr_uIoo (hfirst hspan le_rfl),
          ← intervalIntegral.integral_congr_uIoo hrest, hval, min_eq_right hend.le]
        rw [harea hspan.le, add_div, Rat.cast_add]

/-- The expected arrivals start at zero, never fall while the rates are not negative, stay as they
are past the last stage, and are the integral of the rate. -/
theorem expectedArrivals_eq_integral (startRate : ℚ) (stages : List Stage) (timeUnit : ℕ) :
    let curve := new startRate stages timeUnit
    curve.expectedArrivals 0 = 0 ∧
      (0 ≤ startRate → Monotone curve.expectedArrivals) ∧
      (∀ t, curve.totalDuration ≤ t →
        curve.expectedArrivals t = curve.expectedArrivals curve.totalDuration) ∧
      (∀ t : ℕ, curve.rateOverTime (secs t) = curve.interpolateRate t) ∧
      ∀ t : ℕ, (curve.expectedArrivals t : ℝ) = ∫ x in (0 : ℝ)..secs t, curve.rateOverTime x := by
  intro curve
  refine ⟨?_, ?_, ?_, ?_, ?_⟩
  · have harea : areaUpTo 0 curve.timeline 0 = 0 := areaUpTo_build_of_le le_rfl _ stages
    rw [expectedArrivals, harea, zero_div]
  · intro hstart t t' ht
    exact expectedArrivals_mono hstart stages timeUnit ht
  · intro t ht
    exact congrArg (· / curve.timeUnitSecs) (areaUpTo_of_total_le 0 startRate stages ht)
  · intro t
    exact rateOver_secs t _ _
  · intro t
    have hintegral := (integral_rateOver_build (secs timeUnit) 0 startRate stages t.zero_le).2
    have hzero : (secs 0 : ℝ) = 0 := by simp [secs]
    rw [hzero] at hintegral
    exact hintegral.symm

end ArrivalCurve

end K6Rs
