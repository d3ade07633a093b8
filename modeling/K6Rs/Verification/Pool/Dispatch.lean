import K6Rs.Library.DoubleBound
import K6Rs.Verification.Config

/-! # The dispatch loop

The area under rates that are 32-bit integers stays far below the largest float, however many stages
there are, so that the target is finite unless it is a division by zero. A pass compares its 64-bit
counter with it. -/

namespace K6Rs

open FloatOps
open Double hiding add mul div neg abs

/-! ## Seconds -/

theorem ofNat_zero : (ofNat 0 : Double) = num false 0 := by
  change Double.ofRat ((0 : ℕ) : ℚ) = _
  rw [Nat.cast_zero, Double.ofRat_zero]

theorem toRat_ofNat_zero : (ofNat 0 : Double).toRat = 0 := by
  rw [ofNat_zero]
  simp [toRat]

theorem between_ofNat {n : ℕ} {j k : ℤ} (hj : -1022 ≤ j) (hk : k ≤ 1023) (hlow : (2 : ℚ) ^ j ≤ n)
    (hhigh : (n : ℚ) ≤ 2 ^ k) : Between j k (ofNat n : Double) :=
  between_ofRat hj hk hlow hhigh

theorem below_ofNat {n : ℕ} {k : ℤ} (hlow : -1022 ≤ k) (hhigh : k ≤ 1023) (h : (n : ℚ) ≤ 2 ^ k) :
    Below k (ofNat n : Double) := by
  apply below_round _ hlow hhigh
  rw [abs_of_nonneg (Nat.cast_nonneg n)]
  exact h

theorem below_rate {n : ℕ} (h : n < 2 ^ 32) : Below 32 (ofNat n : Double) := by
  apply below_ofNat (by norm_num) (by norm_num)
  have : (n : ℚ) ≤ (2 ^ 32 : ℕ) := by exact_mod_cast h.le
  refine this.trans_eq ?_
  norm_num

theorem finite_ofNat_zero : (ofNat 0 : Double).IsFinite := by
  rw [ofNat_zero]
  simp [IsFinite, infMag]

/-- The size of a natural number as a float. -/
theorem toRat_ofNat_bounds {n : ℕ} {k : ℕ} (hk : k ≤ 1023) (h : n ≤ 2 ^ k) :
    (ofNat n : Double).IsFinite ∧ (0 < n → 1 ≤ (ofNat n : Double).toRat) ∧
      0 ≤ (ofNat n : Double).toRat ∧ (ofNat n : Double).toRat ≤ 2 ^ k := by
  rcases Nat.eq_zero_or_pos n with rfl | hn
  · refine ⟨finite_ofNat_zero, fun h => absurd h (lt_irrefl 0), ?_, ?_⟩
    · rw [toRat_ofNat_zero]
    · rw [toRat_ofNat_zero]
      positivity
  · have hbetween : Between 0 k (ofNat n : Double) := by
      apply between_ofNat (by norm_num) (by omega)
      · rw [zpow_zero]
        exact_mod_cast hn
      · rw [zpow_natCast]
        exact_mod_cast h
    obtain ⟨hfin, hlow, hhigh⟩ := hbetween
    rw [zpow_zero] at hlow
    rw [zpow_natCast] at hhigh
    exact ⟨hfin, fun _ => hlow, zero_le_one.trans hlow, hhigh⟩

theorem between_second : Between 29 30 (ofNat secondNanos : Double) := by
  apply between_ofNat (by norm_num) (by norm_num) <;> norm_num [secondNanos]

/-- The fraction of a second. -/
theorem fraction_bounds {b : ℕ} (hb : b < secondNanos) :
    (div (ofNat b) (ofNat secondNanos) : Double).IsFinite ∧
      (0 < b → 2 ^ (-30 : ℤ) ≤ (div (ofNat b) (ofNat secondNanos) : Double).toRat) ∧
      0 ≤ (div (ofNat b) (ofNat secondNanos) : Double).toRat ∧
      (div (ofNat b) (ofNat secondNanos) : Double).toRat ≤ 2 := by
  have hsecond := between_second
  have hb30 : (b : ℚ) ≤ 2 ^ (30 : ℤ) := by
    have : (b : ℚ) ≤ secondNanos := by exact_mod_cast hb.le
    refine this.trans ?_
    norm_num [secondNanos]
  rcases Nat.eq_zero_or_pos b with rfl | hpos
  · have hzero : (div (ofNat 0) (ofNat secondNanos) : Double).toRat = 0 := by
      rw [div_of_pos finite_ofNat_zero hsecond.1 ((two_zpow_pos 29).trans_le hsecond.2.1),
        toRat_ofNat_zero, zero_div]
      cases (ofNat 0 : Double).signBit <;> simp [Double.round, ofMag, toRat]
    have hbelow := (below_ofNat (n := 0) (k := 30) (by norm_num) (by norm_num) hb30).div hsecond
      (by norm_num) (by norm_num)
    refine ⟨hbelow.1, fun h => absurd h (lt_irrefl 0), ?_, ?_⟩
    · rw [hzero]
    · rw [hzero]
      norm_num
  · have hbetween : Between 0 30 (ofNat b : Double) := by
      apply between_ofNat (by norm_num) (by norm_num) _ hb30
      rw [zpow_zero]
      exact_mod_cast hpos
    obtain ⟨hfin, hlow, hhigh⟩ := hbetween.div hsecond (by norm_num) (by norm_num)
    refine ⟨hfin, fun _ => by simpa using hlow, (two_zpow_pos _).le.trans hlow, ?_⟩
    refine hhigh.trans_eq ?_
    norm_num

theorem asSecsF64_zero : asSecsF64 0 = num false 0 := by decide +kernel

theorem between_asSecsF64 {nanos : ℕ} (hpos : 0 < nanos) (h : nanos ≤ durationMax) :
    Between (-30) 65 (asSecsF64 nanos) := by
  have hsecond : 0 < secondNanos := by norm_num [secondNanos]
  have hsecs : nanos / secondNanos ≤ 2 ^ 64 := by
    apply Nat.div_le_of_le_mul
    exact h.trans ((Nat.sub_le _ _).trans_eq (Nat.mul_comm _ _))
  obtain ⟨hfin, hone, hnonneg, hmax⟩ := toRat_ofNat_bounds (by norm_num) hsecs
  obtain ⟨hfin', hleast, hnonneg', hmax'⟩ := fraction_bounds (Nat.mod_lt nanos hsecond)
  apply between_add hfin hfin' (by norm_num) (by norm_num)
  · -- One of the two parts is there.
    rcases Nat.eq_zero_or_pos (nanos % secondNanos) with hfraction | hfraction
    · have hwhole : 0 < nanos / secondNanos := by
        apply Nat.div_pos _ hsecond
        exact Nat.le_of_dvd hpos (Nat.dvd_of_mod_eq_zero hfraction)
      have hsmall : (2 : ℚ) ^ (-30 : ℤ) ≤ 1 := by norm_num
      linarith [hone hwhole]
    · exact (hleast hfraction).trans (le_add_of_nonneg_left hnonneg)
  · have hbig : (2 : ℚ) ^ (65 : ℤ) = 2 ^ 64 + 2 ^ 64 := by norm_num
    rw [hbig]
    linarith

theorem below_asSecsF64 {nanos : ℕ} (h : nanos ≤ durationMax) : Below 65 (asSecsF64 nanos) := by
  rcases Nat.eq_zero_or_pos nanos with rfl | hpos
  · rw [asSecsF64_zero, ← ofNat_zero]
    exact below_ofNat (by norm_num) (by norm_num) (by norm_num)
  · exact (between_asSecsF64 hpos h).below

/-! ## The area under the rates -/

namespace FloatCurve

/-- What the coordinator relies on in a segment. -/
structure Valid (seg : FloatSegment) : Prop where
  stageEnd_le : seg.stageEnd ≤ durationMax
  below_fromRate : Below 32 seg.fromRate
  below_toRate : Below 32 seg.toRate

theorem build_valid {offset : ℕ} {prevRate : Double} {stages : List Stage}
    {timeline : List FloatSegment} {total : ℕ}
    (h : build offset prevRate stages = some (timeline, total)) (hprev : Below 32 prevRate)
    (hstages : ∀ stage ∈ stages, stage.target < 2 ^ 32) : ∀ seg ∈ timeline, Valid seg := by
  induction stages generalizing offset prevRate timeline total with
  | nil =>
      cases h
      simp
  | cons stage stages ih =>
      rw [List.forall_mem_cons] at hstages
      have htarget := below_rate hstages.1
      simp only [build] at h
      split at h
      · cases h
      · rename_i hend
        obtain ⟨⟨rest, total'⟩, hrest, heq⟩ := Option.bind_eq_some_iff.mp h
        cases heq
        rw [List.forall_mem_cons]
        exact ⟨⟨not_lt.mp hend, hprev, htarget⟩, ih hrest htarget hstages.2⟩

/-- The segment with its rates as exact numbers. -/
def exactSegment (seg : FloatSegment) : Segment :=
  ⟨seg.stageStart, seg.stageEnd, seg.fromRate.toRat, seg.toRate.toRat⟩

theorem toRat_rate {n : ℕ} (h : n < 2 ^ 32) : (ofNat n : Double).toRat = n :=
  toRat_ofRat_natCast (h.trans (by norm_num))

/-- The timeline holds the rates of the exact curve; it is their integral that is rounded. -/
theorem build_exact {offset : ℕ} {prevRate : Double} {stages : List Stage}
    {timeline : List FloatSegment} {total : ℕ}
    (h : build offset prevRate stages = some (timeline, total))
    (hstages : ∀ stage ∈ stages, stage.target < 2 ^ 32) :
    ArrivalCurve.build offset prevRate.toRat stages = (timeline.map exactSegment, total) := by
  induction stages generalizing offset prevRate timeline total with
  | nil =>
      cases h
      rfl
  | cons stage stages ih =>
      rw [List.forall_mem_cons] at hstages
      simp only [build] at h
      split at h
      · cases h
      · obtain ⟨⟨rest, total'⟩, hrest, heq⟩ := Option.bind_eq_some_iff.mp h
        cases heq
        have hexact := ih hrest hstages.2
        rw [toRat_rate hstages.1] at hexact
        simp only [ArrivalCurve.build, hexact, List.map_cons, exactSegment, toRat_rate hstages.1]

/-- The area of one segment. -/
theorem below_segment {fromRate toRate u stageDur : Double} (hfrom : Below 32 fromRate)
    (hto : Below 32 toRate) (hu : Below 65 u) (hdur : Between (-30) 65 stageDur) :
    Below 346 (add (mul fromRate u)
      (div (mul (mul (sub toRate fromRate) u) u) (mul (ofNat 2) stageDur))) := by
  have hflat : Below 97 (mul fromRate u) := hfrom.mul hu (by norm_num) (by norm_num)
  have hrise : Below 33 (sub toRate fromRate) := hto.sub hfrom (by norm_num) (by norm_num)
  have hrise' : Below 98 (mul (sub toRate fromRate) u) := hrise.mul hu (by norm_num) (by norm_num)
  have hrise'' : Below 163 (mul (mul (sub toRate fromRate) u) u) :=
    hrise'.mul hu (by norm_num) (by norm_num)
  have htwo : Between 1 1 (ofNat 2 : Double) := by
    apply between_ofNat (by norm_num) (by norm_num) <;> norm_num
  have hdouble : Between (-29) 66 (mul (ofNat 2) stageDur) :=
    htwo.mul hdur (by norm_num) (by norm_num)
  have hramp : Below 192 (div (mul (mul (sub toRate fromRate) u) u) (mul (ofNat 2) stageDur)) :=
    hrise''.div hdouble (by norm_num) (by norm_num)
  have hsum := (hflat.mono (by norm_num : (97 : ℤ) ≤ 192)).add hramp (by norm_num) (by norm_num)
  exact hsum.mono (by norm_num)

theorem below_areaUpTo {timeline : List FloatSegment} (h : ∀ seg ∈ timeline, Valid seg)
    (elapsed : ℕ) {area : Double} (harea : Below 400 area) :
    Below 400 (areaUpTo elapsed timeline area) := by
  induction timeline generalizing area with
  | nil => exact harea
  | cons seg rest ih =>
      rw [List.forall_mem_cons] at h
      obtain ⟨⟨hend, hfrom, hto⟩, hrest⟩ := h
      simp only [areaUpTo]
      split
      · exact harea
      · split
        · exact ih hrest harea
        · rename_i hdur
          -- A stage without a duration is passed over.
          have hpos : 0 < seg.stageEnd - seg.stageStart := by
            rw [Nat.pos_iff_ne_zero]
            intro hzero
            apply hdur
            rw [hzero, asSecsF64_zero]
            decide +kernel
          apply ih hrest
          apply harea.add_small _ (by norm_num) (by norm_num)
          apply below_segment hfrom hto
          · exact below_asSecsF64 (by omega)
          · exact between_asSecsF64 hpos (by omega)

/-- The area is far from overflow at every time. -/
theorem below_area {curve : FloatCurve} (h : ∀ seg ∈ curve.timeline, Valid seg) (elapsed : ℕ) :
    Below 400 (curve.area elapsed) :=
  below_areaUpTo h elapsed (below_ofNat (by norm_num) (by norm_num) (by norm_num))

theorem new_eq_some {startRate : Double} {stages : List Stage} {timeUnit : ℕ} {curve : FloatCurve}
    (h : new startRate stages timeUnit = some curve) :
    build 0 startRate stages = some (curve.timeline, curve.totalDuration) ∧
      curve.timeUnitSecs = asSecsF64 timeUnit := by
  obtain ⟨⟨timeline, total⟩, hbuild, heq⟩ := Option.bind_eq_some_iff.mp h
  cases heq
  exact ⟨hbuild, rfl⟩

end FloatCurve

/-- The curve of an executor whose rates and time unit are in range. -/
theorem ExecutorType.curve_valid {executor : ExecutorType} {curve : FloatCurve}
    (hrange : executor.InRange) (h : executor.curve = some curve) :
    (∀ seg ∈ curve.timeline, FloatCurve.Valid seg) ∧
      ∃ timeUnit ≤ durationMax, executor.timeUnit = some timeUnit ∧
        curve.timeUnitSecs = asSecsF64 timeUnit := by
  cases executor with
  | constantArrivalRate rate timeUnit duration vus maxVus =>
      obtain ⟨hrate, hunit⟩ := hrange
      obtain ⟨hbuild, hsecs⟩ := FloatCurve.new_eq_some h
      refine ⟨?_, timeUnit, hunit, rfl, hsecs⟩
      exact FloatCurve.build_valid hbuild (below_rate hrate) (by simpa using hrate)
  | rampingArrivalRate startRate stages timeUnit vus maxVus =>
      obtain ⟨hstart, htargets, hunit⟩ := hrange
      obtain ⟨hbuild, hsecs⟩ := FloatCurve.new_eq_some h
      refine ⟨?_, timeUnit, hunit, rfl, hsecs⟩
      exact FloatCurve.build_valid hbuild (below_rate hstart) htargets
  | _ => cases h

/-! ## The counter -/

/-- The position of the next arrival is finite and does not pass the end of the counter. -/
theorem next_bounds {dispatched : ℕ} (h : dispatched < 2 ^ 64) :
    (add (ofNat dispatched) (ofNat 1) : Double).IsFinite ∧
      (add (ofNat dispatched) (ofNat 1) : Double).toRat ≤ 2 ^ (64 : ℤ) := by
  have hd : (dispatched : ℚ) ≤ 2 ^ (64 : ℤ) := by
    have : (dispatched : ℚ) ≤ (2 ^ 64 : ℕ) := by exact_mod_cast h.le
    refine this.trans_eq ?_
    norm_num
  have hcounter : Below 64 (ofNat dispatched : Double) := below_ofNat (by norm_num) (by norm_num) hd
  have hone : Below (64 - 54) (ofNat 1 : Double) :=
    below_ofNat (by norm_num) (by norm_num) (by norm_num)
  have hnext := hcounter.add_small hone (by norm_num) (by norm_num)
  exact ⟨hnext.1, (le_abs_self _).trans hnext.2⟩

/-- The last counter stands for the end as a float. -/
theorem last_next : (2 : ℚ) ^ (64 : ℤ) ≤
    (add (ofNat (2 ^ 64 - 1)) (ofNat 1) : Double).toRat := by
  decide +kernel

/-- A target that is not a number, or below the end of the counter, is reached. -/
theorem passEnds_of_lt {target : Double} (hfin : target.IsFinite)
    (hlt : target.toRat < 2 ^ (64 : ℤ)) {dispatched : ℕ} (h : dispatched < 2 ^ 64) :
    PassEnds target dispatched := by
  induction hleft : 2 ^ 64 - 1 - dispatched generalizing dispatched with
  | zero =>
      have hlast : dispatched = 2 ^ 64 - 1 := by omega
      have hdue : arrivalDue target dispatched = false := by
        rw [hlast, arrivalDue, ← Bool.not_eq_true]
        intro hle
        rw [le_iff_toRat (next_bounds (by norm_num)).1 hfin] at hle
        exact absurd (last_next.trans hle) (not_le.mpr hlt)
      exact ⟨1, by simp [dispatchPass, hdue]⟩
  | succ left ih =>
      cases hdue : arrivalDue target dispatched with
      | false => exact ⟨1, by simp [dispatchPass, hdue]⟩
      | true =>
          have hnext : (dispatched + 1) % 2 ^ 64 = dispatched + 1 := Nat.mod_eq_of_lt (by omega)
          obtain ⟨fuel, hfuel⟩ : PassEnds target (dispatched + 1) := ih (by omega) (by omega)
          exact ⟨fuel + 1, by simpa only [dispatchPass, hdue, if_true, hnext] using hfuel⟩

/-- The counter wraps around before it passes a larger target. -/
theorem not_passEnds_of_le {target : Double} (hfin : target.IsFinite)
    (hle : 2 ^ (64 : ℤ) ≤ target.toRat) {dispatched : ℕ} (h : dispatched < 2 ^ 64) :
    ¬PassEnds target dispatched := by
  rintro ⟨fuel, hfuel⟩
  induction fuel generalizing dispatched with
  | zero => cases hfuel
  | succ fuel ih =>
      obtain ⟨hnext, hbound⟩ := next_bounds h
      have hdue : arrivalDue target dispatched = true := by
        rw [arrivalDue, le_iff_toRat hnext hfin]
        exact hbound.trans hle
      simp only [dispatchPass, hdue, if_true] at hfuel
      exact ih (Nat.mod_lt _ (by norm_num)) hfuel

/-- Every pass dispatches finitely often exactly when the time unit is not zero and the area under
the rates stays below so many time units that the target rounds to the end of the counter. -/
theorem dispatchesFinitely_iff {debug : DebugFormat} {options : Json} {config : TestConfig}
    {name : Str} {scenario : ScenarioConfig} {curve : FloatCurve}
    (hconfig : parseOptions debug options = .ok config)
    (hscenario : config.scenarios.find? name = some scenario)
    (hcurve : scenario.executor.curve = some curve) :
    curve.DispatchesFinitely ↔ scenario.executor.timeUnit ≠ some 0 ∧
      ∀ elapsed ≤ curve.totalDuration,
        (curve.area elapsed).toRat < (2 ^ 64 - 2 ^ 10) * curve.timeUnitSecs.toRat := by
  have hrange := parseOptions_inRange hconfig name scenario hscenario
  obtain ⟨hvalid, timeUnit, hunit, htimeUnit, hsecs⟩ := scenario.executor.curve_valid hrange hcurve
  rw [htimeUnit, ne_eq, Option.some_inj]
  rcases Nat.eq_zero_or_pos timeUnit with rfl | hpos
  · constructor
    · intro h
      have hfin := (h 0).1
      rw [FloatCurve.target, FloatCurve.expectedArrivals, hsecs, asSecsF64_zero] at hfin
      exact absurd hfin (not_finite_div_zero _)
    · rintro ⟨hne, -⟩
      exact absurd rfl hne
  · have hbetween : Between (-30) 65 curve.timeUnitSecs := hsecs ▸ between_asSecsF64 hpos hunit
    have hsecsPos := (two_zpow_pos (-30)).trans_le hbetween.2.1
    have hfin : ∀ elapsed, (curve.target elapsed).IsFinite := by
      intro elapsed
      exact ((FloatCurve.below_area hvalid _).div hbetween (by norm_num) (by norm_num)).1
    have hlt : ∀ elapsed, (curve.target elapsed).toRat < 2 ^ (64 : ℤ) ↔
        (curve.area (min elapsed curve.totalDuration)).toRat <
          (2 ^ 64 - 2 ^ 10) * curve.timeUnitSecs.toRat := by
      intro elapsed
      exact div_lt_two_zpow_iff (FloatCurve.below_area hvalid _).1 hbetween.1 hsecsPos
        (hfin elapsed) (by norm_num)
    constructor
    · intro h
      refine ⟨hpos.ne', fun elapsed helapsed => ?_⟩
      have hbelow := hlt elapsed
      rw [min_eq_left helapsed] at hbelow
      apply hbelow.mp
      by_contra hge
      exact not_passEnds_of_le (hfin elapsed) (not_lt.mp hge) (by norm_num)
        ((h elapsed).2 0 (by norm_num))
    · rintro ⟨-, harea⟩ elapsed
      refine ⟨hfin elapsed, fun dispatched hdispatched => ?_⟩
      exact passEnds_of_lt (hfin elapsed) ((hlt elapsed).mpr (harea _ (min_le_right _ _)))
        hdispatched

/-- Ten arrivals in each time unit, for one second. -/
def tenPerUnit (timeUnit : String) : Json :=
  .object [("scenarios".toList, .object [("load".toList, .object
    [("duration".toList, .string "1s".toList),
      ("executor".toList, .string "constant-arrival-rate".toList),
      ("preAllocatedVUs".toList, .number (.posInt 1)),
      ("rate".toList, .number (.posInt 10)),
      ("timeUnit".toList, .string timeUnit.toList)])])]

/-- The curve of the scenario `name`, when the options are accepted. -/
def acceptedCurve (debug : DebugFormat) (options : Json) (name : Str) : Option FloatCurve :=
  (parseOptions debug options).toOption.bind fun config =>
    (config.scenarios.find? name).bind fun scenario => scenario.executor.curve

theorem acceptedCurve_eq_some {debug : DebugFormat} {options : Json} {name : Str}
    {curve : FloatCurve} (h : acceptedCurve debug options name = some curve) :
    ∃ config scenario, parseOptions debug options = .ok config ∧
      config.scenarios.find? name = some scenario ∧ scenario.executor.curve = some curve := by
  obtain ⟨config, hconfig, h⟩ := Option.bind_eq_some_iff.mp h
  obtain ⟨scenario, hscenario, hcurve⟩ := Option.bind_eq_some_iff.mp h
  exact ⟨config, scenario, Except.toOption_eq_some_iff.mp hconfig, hscenario, hcurve⟩

theorem dispatchesFinitely_iff_second :
    ∃ (config : TestConfig) (scenario : ScenarioConfig) (curve : FloatCurve),
      parseOptions ⟨id, fun _ => []⟩ (tenPerUnit "1s") = .ok config ∧
      config.scenarios.find? "load".toList = some scenario ∧
      scenario.executor.curve = some curve ∧
      (curve.DispatchesFinitely ↔ scenario.executor.timeUnit ≠ some 0 ∧
        ∀ elapsed ≤ curve.totalDuration,
          (curve.area elapsed).toRat < (2 ^ 64 - 2 ^ 10) * curve.timeUnitSecs.toRat) := by
  have hsome : (acceptedCurve ⟨id, fun _ => []⟩ (tenPerUnit "1s") "load".toList).isSome = true := by
    decide +kernel
  obtain ⟨curve, hcurve⟩ := Option.isSome_iff_exists.mp hsome
  obtain ⟨config, scenario, hconfig, hscenario, hexecutor⟩ := acceptedCurve_eq_some hcurve
  exact ⟨config, scenario, curve, hconfig, hscenario, hexecutor,
    dispatchesFinitely_iff hconfig hscenario hexecutor⟩

/-- A time unit of `0s` is accepted, and its target is infinite after a second. -/
theorem not_dispatchesFinitely_zero_unit :
    ∃ (config : TestConfig) (scenario : ScenarioConfig) (curve : FloatCurve),
      parseOptions ⟨id, fun _ => []⟩ (tenPerUnit "0s") = .ok config ∧
      config.scenarios.find? "load".toList = some scenario ∧
      scenario.executor.curve = some curve ∧ ¬curve.DispatchesFinitely := by
  have hinfinite : (acceptedCurve ⟨id, fun _ => []⟩ (tenPerUnit "0s") "load".toList).map
      (fun curve => curve.target secondNanos) = some (ofMag false infMag) := by
    decide +kernel
  obtain ⟨curve, hcurve, htarget⟩ := Option.map_eq_some_iff.mp hinfinite
  obtain ⟨config, scenario, hconfig, hscenario, hexecutor⟩ := acceptedCurve_eq_some hcurve
  refine ⟨config, scenario, curve, hconfig, hscenario, hexecutor, fun h => ?_⟩
  have hfin := (h secondNanos).1
  rw [htarget] at hfin
  exact absurd hfin (by simp [ofMag, IsFinite])

end K6Rs
