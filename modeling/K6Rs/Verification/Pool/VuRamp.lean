import K6Rs.Model.VuRamp
import K6Rs.Verification.Pool.Curve
import Mathlib.Order.Interval.Set.Basic

/-! The ramp of the active VUs. Within a stage it goes from the stage's starting value towards its
target without leaving the two, and the pool has a VU for each that it asks for. -/

namespace K6Rs

/-! ## Rounding -/

theorem roundHalfAway_of_nonneg {x : ℚ} (h : 0 ≤ x) : roundHalfAway x = ⌊x + 1 / 2⌋ :=
  if_neg (not_lt.mpr h)

theorem roundHalfAway_natCast (n : ℕ) : roundHalfAway n = n := by
  rw [roundHalfAway_of_nonneg n.cast_nonneg, Int.floor_natCast_add,
    Int.floor_eq_zero_iff.mpr (by norm_num)]
  exact add_zero _

theorem saturateU32_natCast {n : ℕ} (h : n < 2 ^ 32) : saturateU32 n = n := by
  rw [saturateU32, Int.toNat_natCast]
  omega

/-- The number of VUs for a nonnegative value of the ramp. -/
def wholeVus (x : ℚ) : ℕ := saturateU32 (roundHalfAway x)

theorem wholeVus_mono {x y : ℚ} (hx : 0 ≤ x) (h : x ≤ y) : wholeVus x ≤ wholeVus y := by
  have hround : roundHalfAway x ≤ roundHalfAway y := by
    rw [roundHalfAway_of_nonneg hx, roundHalfAway_of_nonneg (hx.trans h)]
    exact Int.floor_le_floor (by linarith)
  have hnat := Int.toNat_le_toNat hround
  rw [wholeVus, wholeVus, saturateU32, saturateU32]
  omega

theorem wholeVus_natCast {n : ℕ} (h : n < 2 ^ 32) : wholeVus n = n := by
  rw [wholeVus, roundHalfAway_natCast, saturateU32_natCast h]

namespace VuSegment

def Contains (seg : VuSegment) (t : ℕ) : Prop := seg.stageStart ≤ t ∧ t < seg.stageEnd

/-- How much of the stage is over. -/
def progress (seg : VuSegment) (t : ℕ) : ℚ :=
  secs (t - seg.stageStart) / secs (seg.stageEnd - seg.stageStart)

variable {seg : VuSegment} {t t' : ℕ}

theorem progress_mono (h : t ≤ t') : seg.progress t ≤ seg.progress t' :=
  div_le_div_of_nonneg_right (secs_mono (Nat.sub_le_sub_right h _)) (secs_nonneg _)

theorem progress_nonneg : 0 ≤ seg.progress t := div_nonneg (secs_nonneg _) (secs_nonneg _)

theorem progress_le_one (h : seg.Contains t) : seg.progress t ≤ 1 :=
  div_le_one_of_le₀ (secs_mono (Nat.sub_le_sub_right h.2.le _)) (secs_nonneg _)

theorem progress_stageStart : seg.progress seg.stageStart = 0 := by
  simp [progress, secs]

/-- The value of the ramp, before it is rounded. -/
def value (seg : VuSegment) (t : ℕ) : ℚ :=
  seg.fromVus + ((seg.toVus : ℚ) - seg.fromVus) * seg.progress t

theorem value_between (h : seg.Contains t) :
    (min seg.fromVus seg.toVus : ℕ) ≤ seg.value t ∧
    seg.value t ≤ (max seg.fromVus seg.toVus : ℕ) := by
  have hlow := @progress_nonneg seg t
  have hhigh := progress_le_one h
  rw [value, Nat.cast_min, Nat.cast_max]
  rcases le_total (seg.fromVus : ℚ) seg.toVus with hle | hle
  · rw [min_eq_left hle, max_eq_right hle]
    constructor <;> nlinarith
  · rw [min_eq_right hle, max_eq_left hle]
    constructor <;> nlinarith

theorem value_nonneg (h : seg.Contains t) : 0 ≤ seg.value t :=
  (Nat.cast_nonneg _).trans (value_between h).1

theorem value_mono (hle : seg.fromVus ≤ seg.toVus) (h : t ≤ t') : seg.value t ≤ seg.value t' := by
  have hslope : 0 ≤ (seg.toVus : ℚ) - seg.fromVus := sub_nonneg.mpr (Nat.cast_le.mpr hle)
  exact add_le_add_right (mul_le_mul_of_nonneg_left (progress_mono h) hslope) _

theorem value_anti (hle : seg.toVus ≤ seg.fromVus) (h : t ≤ t') : seg.value t' ≤ seg.value t := by
  have hslope : (seg.toVus : ℚ) - seg.fromVus ≤ 0 := sub_nonpos.mpr (Nat.cast_le.mpr hle)
  exact add_le_add_right (mul_le_mul_of_nonpos_left (progress_mono h) hslope) _

theorem value_stageStart : seg.value seg.stageStart = seg.fromVus := by
  rw [value, progress_stageStart, mul_zero, add_zero]

end VuSegment

/-! ## The stages on the time axis -/

/-- When the stages from `offset` on follow `prevTarget` VUs, the stage begins at `start`, with
`fromVus` VUs. -/
inductive BeginsAt : ℕ → ℕ → List Stage → Stage → ℕ → ℕ → Prop where
  | first {offset prevTarget : ℕ} {stage : Stage} {stages : List Stage} :
      BeginsAt offset prevTarget (stage :: stages) stage offset prevTarget
  | later {offset prevTarget start fromVus : ℕ} {s stage : Stage} {stages : List Stage}
      (h : BeginsAt (offset + s.duration) s.target stages stage start fromVus) :
      BeginsAt offset prevTarget (s :: stages) stage start fromVus

variable {offset prevTarget start fromVus : ℕ} {stage : Stage} {stages : List Stage}

theorem BeginsAt.offset_le (h : BeginsAt offset prevTarget stages stage start fromVus) :
    offset ≤ start := by
  induction h with
  | first => exact le_rfl
  | later h ih => exact (Nat.le_add_right _ _).trans ih

theorem BeginsAt.mem (h : BeginsAt offset prevTarget stages stage start fromVus) :
    stage ∈ stages := by
  induction h with
  | first => exact List.mem_cons_self
  | later h ih => exact List.mem_cons_of_mem _ ih

/-- A stage starts from the target of another one, or from the start. -/
theorem BeginsAt.fromVus_eq (h : BeginsAt offset prevTarget stages stage start fromVus) :
    fromVus = prevTarget ∨ ∃ s ∈ stages, fromVus = s.target := by
  induction h with
  | first => exact .inl rfl
  | @later offset prevTarget start fromVus s stage stages h ih =>
      rcases ih with rfl | ⟨s', hs', rfl⟩
      · exact .inr ⟨s, List.mem_cons_self, rfl⟩
      · exact .inr ⟨s', List.mem_cons_of_mem _ hs', rfl⟩

namespace VuRampSchedule

theorem build_cons_eq_some {s : Stage} {timeline : List VuSegment} {total : ℕ}
    (h : build offset prevTarget (s :: stages) = some (timeline, total)) :
    ∃ rest, build (offset + s.duration) s.target stages = some (rest, total) ∧
      timeline = ⟨offset, offset + s.duration, prevTarget, s.target⟩ :: rest := by
  simp only [build, Option.ite_none_left_eq_some, Option.bind_eq_bind, Option.bind_eq_some_iff] at h
  obtain ⟨-, ⟨rest, total'⟩, hrest, heq⟩ := h
  cases heq
  exact ⟨rest, hrest, rfl⟩

/-- Every time before the end lies in a stage that is not empty. -/
theorem exists_beginsAt {timeline : List VuSegment} {total t : ℕ}
    (h : build offset prevTarget stages = some (timeline, total)) (hlow : offset ≤ t)
      (hhigh : t < total) :
    ∃ stage start fromVus, BeginsAt offset prevTarget stages stage start fromVus ∧
      start ≤ t ∧ t < start + stage.duration := by
  induction stages generalizing offset prevTarget timeline with
  | nil =>
      cases h
      omega
  | cons s stages ih =>
      obtain ⟨rest, hrest, -⟩ := build_cons_eq_some h
      by_cases hin : t < offset + s.duration
      · exact ⟨s, offset, prevTarget, .first, hlow, hin⟩
      · obtain ⟨stage, start, fromVus, hbegins, hwithin⟩ := ih hrest (Nat.le_of_not_lt hin)
        exact ⟨stage, start, fromVus, .later hbegins, hwithin⟩

/-- The loop finds the segment of the stage that contains the time. -/
theorem activeAt_eq {timeline : List VuSegment} {total t : ℕ}
    (hbegins : BeginsAt offset prevTarget stages stage start fromVus)
    (h : build offset prevTarget stages = some (timeline, total)) (hlow : start ≤ t)
    (hhigh : t < start + stage.duration) :
    activeAt t timeline = wholeVus (VuSegment.value
      ⟨start, start + stage.duration, fromVus, stage.target⟩ t) := by
  induction hbegins generalizing timeline with
  | first =>
      obtain ⟨rest, -, rfl⟩ := build_cons_eq_some h
      rw [activeAt, if_pos ⟨hlow, hhigh⟩]
      rfl
  | later hlater ih =>
      obtain ⟨rest, hrest, rfl⟩ := build_cons_eq_some h
      have hpast := hlater.offset_le.trans hlow
      rw [activeAt, if_neg fun hin => absurd hin.2 (not_lt.mpr hpast)]
      exact ih hrest hlow hhigh

theorem new_eq_some {startVus : ℕ} {s : VuRampSchedule} (h : new startVus stages = some s) :
    build 0 startVus stages = some (s.timeline, s.totalDuration) := by
  simp only [new, Option.bind_eq_bind, Option.bind_eq_some_iff] at h
  obtain ⟨⟨timeline, total⟩, hbuild, heq⟩ := h
  cases heq
  exact hbuild

/-- Within the stage the schedule goes from the starting value towards the target. -/
structure Follows (s : VuRampSchedule) (stage : Stage) (start fromVus t : ℕ) : Prop where
  between : min fromVus stage.target ≤ s.interpolate t ∧ s.interpolate t ≤ max fromVus stage.target
  starts : s.interpolate start = fromVus
  rises : fromVus ≤ stage.target → MonotoneOn s.interpolate (Set.Ico start (start + stage.duration))
  falls : stage.target ≤ fromVus → AntitoneOn s.interpolate (Set.Ico start (start + stage.duration))

theorem follows_of_eq {s : VuRampSchedule} {t : ℕ} (hfrom : fromVus < 2 ^ 32)
    (hto : stage.target < 2 ^ 32)
    (hvalue : ∀ t', start ≤ t' → t' < start + stage.duration → s.interpolate t' =
      wholeVus (VuSegment.value ⟨start, start + stage.duration, fromVus, stage.target⟩ t'))
    (hlow : start ≤ t) (hhigh : t < start + stage.duration) : Follows s stage start fromVus t := by
  have hwithin : VuSegment.Contains ⟨start, start + stage.duration, fromVus, stage.target⟩ t :=
    ⟨hlow, hhigh⟩
  constructor
  · obtain ⟨hmin, hmax⟩ := VuSegment.value_between hwithin
    have hmin' := wholeVus_mono (Nat.cast_nonneg _) hmin
    have hmax' := wholeVus_mono (VuSegment.value_nonneg hwithin) hmax
    rw [wholeVus_natCast (min_lt_of_left_lt hfrom)] at hmin'
    rw [wholeVus_natCast (max_lt hfrom hto)] at hmax'
    rw [hvalue t hlow hhigh]
    exact ⟨hmin', hmax'⟩
  · have hstart :=
      @VuSegment.value_stageStart ⟨start, start + stage.duration, fromVus, stage.target⟩
    rw [hvalue start le_rfl (hlow.trans_lt hhigh), hstart, wholeVus_natCast hfrom]
  · intro hle t₁ h₁ t₂ h₂ h
    rw [hvalue t₁ h₁.1 h₁.2, hvalue t₂ h₂.1 h₂.2]
    exact wholeVus_mono (VuSegment.value_nonneg h₁) (VuSegment.value_mono hle h)
  · intro hle t₁ h₁ t₂ h₂ h
    rw [hvalue t₁ h₁.1 h₁.2, hvalue t₂ h₂.1 h₂.2]
    exact wholeVus_mono (VuSegment.value_nonneg h₂) (VuSegment.value_anti hle h)

theorem target_le_rampingPoolVus {startVus : ℕ} (h : stage ∈ stages) :
    stage.target ≤ rampingPoolVus startVus stages := by
  obtain ⟨m, hm⟩ : ∃ m, (stages.map Stage.target).max? = some m := by
    rw [← Option.isSome_iff_exists, List.isSome_max?_iff]
    exact List.ne_nil_of_mem (List.mem_map_of_mem h)
  rw [rampingPoolVus, hm]
  exact ((List.max?_eq_some_iff.mp hm).2 _ (List.mem_map_of_mem h)).trans (le_max_left _ _)

/-- The schedule follows the stage that contains the time, and the run has allocated every VU that
the schedule asks for. -/
theorem interpolate_follows {startVus t : ℕ} {s : VuRampSchedule} (hstart : startVus < 2 ^ 32)
    (htargets : ∀ stage ∈ stages, stage.target < 2 ^ 32) (hnew : new startVus stages = some s)
    (ht : t < s.totalDuration) :
    (∃ stage start fromVus, BeginsAt 0 startVus stages stage start fromVus ∧
      start ≤ t ∧ t < start + stage.duration) ∧
    (∀ stage start fromVus, BeginsAt 0 startVus stages stage start fromVus → start ≤ t →
      t < start + stage.duration → Follows s stage start fromVus t) ∧
    s.interpolate t ≤ rampingPoolVus startVus stages ∧
    ∀ gracefulRampDown, s.interpolate t ≤
    scenarioMaxVus (.rampingVus startVus stages gracefulRampDown) := by
  have hbuild := new_eq_some hnew
  have hfollows : ∀ stage start fromVus,
      BeginsAt 0 startVus stages stage start fromVus → start ≤ t →
      t < start + stage.duration → Follows s stage start fromVus t := by
    intro stage start fromVus hbegins hlow hhigh
    have hfrom : fromVus < 2 ^ 32 := by
      rcases hbegins.fromVus_eq with rfl | ⟨s', hs', rfl⟩
      · exact hstart
      · exact htargets s' hs'
    apply follows_of_eq hfrom (htargets stage hbegins.mem) _ hlow hhigh
    exact fun t' hlow' hhigh' => activeAt_eq hbegins hbuild hlow' hhigh'
  obtain ⟨stage, start, fromVus, hbegins, hlow, hhigh⟩ := exists_beginsAt hbuild t.zero_le ht
  have hpool : s.interpolate t ≤ rampingPoolVus startVus stages := by
    apply ((hfollows stage start fromVus hbegins hlow hhigh).between.2).trans (max_le _ _)
    · rcases hbegins.fromVus_eq with rfl | ⟨s', hs', rfl⟩
      · exact le_max_right _ _
      · exact target_le_rampingPoolVus hs'
    · exact target_le_rampingPoolVus hbegins.mem
  exact ⟨⟨stage, start, fromVus, hbegins, hlow, hhigh⟩, hfollows, hpool, fun _ => hpool⟩

/-- From 7 VUs at once to 2, and then in four seconds to 5. -/
def dropThenClimb : List Stage := [⟨0, 2⟩, ⟨4 * 10 ^ 9, 5⟩]

theorem interpolate_follows_dropThenClimb :
    ∃ s, new 7 dropThenClimb = some s ∧ s.interpolate (10 ^ 9) ≤ rampingPoolVus 7 dropThenClimb ∧
      Follows s ⟨4 * 10 ^ 9, 5⟩ 0 2 (10 ^ 9) := by
  refine ⟨⟨[⟨0, 0, 7, 2⟩, ⟨0, 4 * 10 ^ 9, 2, 5⟩], 4 * 10 ^ 9⟩, rfl, ?_⟩
  obtain ⟨-, hfollows, hpool, -⟩ := @interpolate_follows dropThenClimb 7 (10 ^ 9)
    ⟨[⟨0, 0, 7, 2⟩, ⟨0, 4 * 10 ^ 9, 2, 5⟩], 4 * 10 ^ 9⟩ (by decide) (by decide) rfl (by decide)
  exact ⟨hpool, hfollows _ _ _ (.later .first) (by decide) (by decide)⟩

end VuRampSchedule

end K6Rs
