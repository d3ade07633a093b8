import K6Rs.Library.Except
import K6Rs.Model.FloatCurve

/-! # The ranges of parsed options

Whatever text an option holds, a parsed rate is a 32-bit integer and a parsed duration fits the
duration type. -/

namespace K6Rs

/-! ## Durations -/

theorem toU64_lt (x : Double) : x.toU64 < 2 ^ 64 := by
  cases x with
  | nan => norm_num [Double.toU64]
  | num neg m =>
      rw [Double.toU64]
      split
      · norm_num
      · split <;> omega

theorem fromNanosRounded_lt (nanos : Double) : fromNanosRounded nanos < 2 ^ 64 :=
  toU64_lt nanos.roundAway

theorem parseComponents_lt {s : Str} {nanos : ℕ} (h : parseComponents Double s = .ok nanos) :
    nanos < 2 ^ 64 := by
  obtain ⟨total, -, h⟩ := Except.bind_eq_ok_iff.mp h
  split at h
  · cases h
  · cases h
    exact fromNanosRounded_lt total

theorem parseDuration_le {s : Str} {nanos : ℕ} (h : parseDuration s = .ok nanos) :
    nanos ≤ durationMax := by
  have hcomponents : ∀ {t : Str}, parseComponents Double t = .ok nanos → nanos ≤ durationMax := by
    intro t ht
    have hlt := parseComponents_lt ht
    rw [durationMax, secondNanos]
    omega
  simp only [parseDuration, parseDurationIn] at h
  split at h
  · cases h
  · split at h
    · cases h
    · split at h
      · split at h
        · cases h
          rw [durationMax, secondNanos]
          omega
        · cases h
      · split at h
        · obtain ⟨millis, -, h⟩ := Except.bind_eq_ok_iff.mp h
          split at h
          · cases h
            have hlt := fromNanosRounded_lt (FloatOps.mul millis (FloatOps.ofNat 1000000))
            rw [durationMax, secondNanos]
            omega
          · exact hcomponents h
        · exact hcomponents h

theorem getDurationOr_le (obj : List (Str × Json)) (key : Str) {default : ℕ}
    (hdefault : default ≤ durationMax) : getDurationOr obj key default ≤ durationMax := by
  rw [getDurationOr]
  cases hparsed : ((obj.lookup key).bind Json.asStr).bind fun s => (parseDuration s).toOption with
  | none => exact hdefault
  | some nanos =>
      obtain ⟨s, -, hs⟩ := Option.bind_eq_some_iff.mp hparsed
      exact parseDuration_le (Except.toOption_eq_some_iff.mp hs)

/-! ## Rates -/

theorem required_eq_ok_iff {α : Type} {message : Str} {x : Option α} {a : α} :
    required message x = .ok a ↔ x = some a := by
  cases x with
  | none => simp [required, bail]
  | some b => simp [required]

theorem withContext_eq_ok_iff {α : Type} {message : Str} {x : Except ConfigError α} {a : α} :
    withContext message x = .ok a ↔ x = .ok a := by
  cases x with
  | error chain => simp [withContext]
  | ok b => simp [withContext]

theorem getU32_lt {obj : List (Str × Json)} {key : Str} {n : ℕ} (h : getU32 obj key = .ok n) :
    n < 2 ^ 32 := by
  obtain ⟨m, -, rfl⟩ := Option.map_eq_some_iff.mp (required_eq_ok_iff.mp h)
  exact Nat.mod_lt m (by norm_num)

theorem getU32_getD_lt (obj : List (Str × Json)) (key : Str) {default : ℕ}
    (hdefault : default < 2 ^ 32) : (getU32 obj key).toOption.getD default < 2 ^ 32 := by
  cases hn : (getU32 obj key).toOption with
  | none => exact hdefault
  | some n => exact getU32_lt (Except.toOption_eq_some_iff.mp hn)

theorem parseStages_lt {value : Json} {stages : List Stage} (h : parseStages value = .ok stages) :
    ∀ stage ∈ stages, stage.target < 2 ^ 32 := by
  obtain ⟨items, -, h⟩ := Except.bind_eq_ok_iff.mp h
  refine Except.forall_mem_of_mapM (P := fun stage => stage.target < 2 ^ 32) ?_ h
  intro v stage hstage
  obtain ⟨obj, -, hstage⟩ := Except.bind_eq_ok_iff.mp hstage
  obtain ⟨duration, -, hstage⟩ := Except.bind_eq_ok_iff.mp hstage
  obtain ⟨target, htarget, hstage⟩ := Except.bind_eq_ok_iff.mp hstage
  cases hstage
  exact getU32_lt (withContext_eq_ok_iff.mp htarget)

/-! ## Executors -/

/-- The rates of an executor that is driven by arrivals are 32-bit integers, and its time unit is a
duration. -/
def ExecutorType.InRange : ExecutorType → Prop
  | .constantArrivalRate rate timeUnit _ _ _ => rate < 2 ^ 32 ∧ timeUnit ≤ durationMax
  | .rampingArrivalRate startRate stages timeUnit _ _ =>
      startRate < 2 ^ 32 ∧ (∀ stage ∈ stages, stage.target < 2 ^ 32) ∧ timeUnit ≤ durationMax
  | _ => True

theorem secondNanos_le : secondNanos ≤ durationMax := by norm_num [durationMax, secondNanos]

theorem parseConstantArrivalRate_inRange {obj : List (Str × Json)} {executor : ExecutorType}
    (h : parseConstantArrivalRate obj = .ok executor) : executor.InRange := by
  obtain ⟨rate, hrate, h⟩ := Except.bind_eq_ok_iff.mp h
  obtain ⟨duration, -, h⟩ := Except.bind_eq_ok_iff.mp h
  obtain ⟨vus, -, h⟩ := Except.bind_eq_ok_iff.mp h
  cases h
  exact ⟨getU32_lt (withContext_eq_ok_iff.mp hrate), getDurationOr_le obj _ secondNanos_le⟩

theorem parseRampingArrivalRate_inRange {obj : List (Str × Json)} {executor : ExecutorType}
    (h : parseRampingArrivalRate obj = .ok executor) : executor.InRange := by
  obtain ⟨value, -, h⟩ := Except.bind_eq_ok_iff.mp h
  obtain ⟨stages, hstages, h⟩ := Except.bind_eq_ok_iff.mp h
  obtain ⟨vus, -, h⟩ := Except.bind_eq_ok_iff.mp h
  cases h
  exact ⟨getU32_getD_lt obj _ (by norm_num), parseStages_lt hstages,
    getDurationOr_le obj _ secondNanos_le⟩

theorem parseExecutor_inRange {obj : List (Str × Json)} {executorType : Str}
    {executor : ExecutorType} (h : parseExecutor obj executorType = .ok executor) :
    executor.InRange := by
  simp only [parseExecutor] at h
  split at h
  · obtain ⟨duration, -, h⟩ := Except.bind_eq_ok_iff.mp h
    cases h
    trivial
  split at h
  · obtain ⟨value, -, h⟩ := Except.bind_eq_ok_iff.mp h
    obtain ⟨stages, -, h⟩ := Except.bind_eq_ok_iff.mp h
    cases h
    trivial
  split at h
  · exact parseConstantArrivalRate_inRange h
  split at h
  · exact parseRampingArrivalRate_inRange h
  split at h
  · cases h
    trivial
  split at h
  · cases h
    trivial
  · cases h

theorem parseScenario_inRange {val : Json} {scenario : ScenarioConfig}
    (h : parseScenario val = .ok scenario) : scenario.executor.InRange := by
  obtain ⟨obj, -, h⟩ := Except.bind_eq_ok_iff.mp h
  obtain ⟨executorType, -, h⟩ := Except.bind_eq_ok_iff.mp h
  obtain ⟨executor, hexecutor, h⟩ := Except.bind_eq_ok_iff.mp h
  cases h
  exact parseExecutor_inRange hexecutor

/-- Every executor of the scenarios is in range. -/
def InRange (scenarios : KeyMap Str ScenarioConfig) : Prop :=
  ∀ name scenario, scenarios.find? name = some scenario → scenario.executor.InRange

theorem InRange.upsert {scenarios : KeyMap Str ScenarioConfig} (h : InRange scenarios) (name : Str)
    {scenario : ScenarioConfig} (hscenario : scenario.executor.InRange) :
    InRange (scenarios.upsert name fun _ => scenario) :=
  KeyMap.forall_upsert h hscenario

theorem parseScenarios_inRange {value : Json} {scenarios : KeyMap Str ScenarioConfig}
    (h : parseScenarios value = .ok scenarios) : InRange scenarios := by
  obtain ⟨obj, -, h⟩ := Except.bind_eq_ok_iff.mp h
  refine Except.foldlM_invariant (P := InRange) ?_ ?_ h
  · rintro parsed ⟨name, val⟩ parsed' hparsed hstep
    obtain ⟨scenario, hscenario, hstep⟩ := Except.bind_eq_ok_iff.mp hstep
    cases hstep
    exact hparsed.upsert name (parseScenario_inRange (withContext_eq_ok_iff.mp hscenario))
  · intro name scenario hfind
    cases hfind

theorem parseFields_inRange {debug : DebugFormat} {obj : List (Str × Json)} {config : TestConfig}
    (h : parseFields debug obj = .ok config) : InRange config.scenarios := by
  -- The fields before the scenarios, in their order.
  iterate 20 obtain ⟨_, -, h⟩ := Except.bind_eq_ok_iff.mp h
  obtain ⟨scenarios, hscenarios, h⟩ := Except.bind_eq_ok_iff.mp h
  cases h
  rw [fieldOr] at hscenarios
  split at hscenarios
  · exact parseScenarios_inRange hscenarios
  · cases hscenarios
    intro name scenario hfind
    cases hfind

theorem parseOptions_inRange {debug : DebugFormat} {options : Json} {config : TestConfig}
    (h : parseOptions debug options = .ok config) : InRange config.scenarios := by
  obtain ⟨obj, -, h⟩ := Except.bind_eq_ok_iff.mp h
  obtain ⟨parsed, hparsed, h⟩ := Except.bind_eq_ok_iff.mp h
  have hrange := parseFields_inRange hparsed
  split at h
  · cases h
    apply hrange.upsert
    rw [defaultScenario]
    split <;> trivial
  · cases h
    exact hrange

end K6Rs
