import K6Rs.Verification.Config
import K6Rs.Model.CliOverrides

/-! # Options from the command line

The executor of the default scenario is chosen once from the options of a script, and again when
flags override them. The two choices are compared with the one for options in which the flags
already stand. -/

namespace K6Rs

/-! ## Options with the values of flags -/

/-- The object with another value for a field, if there is one. -/
def setField (obj : List (Str × Json)) (key : String) : Option Json → List (Str × Json)
  | some v => (key.toList, v) :: obj.filter fun member => member.1 ≠ key.toList
  | none => obj

def withFlags (obj : List (Str × Json)) (vus : Option UInt32) (duration : Option Str)
    (iterations : Option UInt32) : List (Str × Json) :=
  setField (setField (setField obj
    "vus" (vus.map fun v => .number (.posInt v.toNat)))
    "duration" (duration.map Json.string))
    "iterations" (iterations.map fun n => .number (.posInt n.toNat))

section

variable {obj : List (Str × Json)} {debug : DebugFormat} {config : TestConfig}

theorem lookup_setField_self (obj : List (Str × Json)) (key : String) (v : Option Json) :
    (setField obj key v).lookup key.toList = v.or (obj.lookup key.toList) := by
  cases v with
  | none => rfl
  | some v => simp [setField]

theorem lookup_filter_ne {k j : Str} (h : j ≠ k) :
    (obj.filter fun member => member.1 ≠ k).lookup j = obj.lookup j := by
  induction obj with
  | nil => rfl
  | cons member obj ih =>
      rw [List.filter_cons, List.lookup_cons]
      by_cases hk : member.1 = k
      · have hj : (j == member.1) = false := beq_eq_false_iff_ne.mpr fun heq => h (heq.trans hk)
        rw [if_neg (by simpa using hk), hj, ih]
      · rw [if_pos (by simpa using hk), List.lookup_cons, ih]

theorem lookup_setField_of_ne {key key' : String} (h : key'.toList ≠ key.toList) (v : Option Json) :
    (setField obj key v).lookup key'.toList = obj.lookup key'.toList := by
  cases v with
  | none => rfl
  | some v => rw [setField, List.lookup_cons, beq_eq_false_iff_ne.mpr h, lookup_filter_ne h]

/-- The fields that no flag is for. -/
theorem lookup_withFlags_of_ne {key : String} (vus : Option UInt32) (duration : Option Str)
    (iterations : Option UInt32) (hvus : key.toList ≠ "vus".toList)
    (hduration : key.toList ≠ "duration".toList) (hiterations : key.toList ≠ "iterations".toList) :
    (withFlags obj vus duration iterations).lookup key.toList = obj.lookup key.toList := by
  rw [withFlags, lookup_setField_of_ne hiterations, lookup_setField_of_ne hduration,
    lookup_setField_of_ne hvus]

/-- The duration that a flag gives. -/
def flagDuration (duration : Option Str) (default : ℕ) : Except ConfigError ℕ :=
  match duration with
  | some d => parseDuration d
  | none => .ok default

def flagVus (vus : Option UInt32) (default : ℕ) : ℕ := (vus.map UInt32.toNat).getD default

/-- The iterations that options give, in which a flag for them stands. -/
def flagIterations (iterations : Option UInt32) (default : Option ℕ) : Option ℕ :=
  match iterations with
  | some n => if 0 < n.toNat then some n.toNat else none
  | none => default

theorem fieldOr_withFlags_of_ne {α : Type} {key : String} (vus : Option UInt32)
    (duration : Option Str) (iterations : Option UInt32) (hvus : key.toList ≠ "vus".toList)
    (hduration : key.toList ≠ "duration".toList) (hiterations : key.toList ≠ "iterations".toList)
    (default : α) (parse : Json → Except ConfigError α) :
    fieldOr (withFlags obj vus duration iterations) key default parse =
    fieldOr obj key default parse := by
  rw [fieldOr, fieldOr, lookup_withFlags_of_ne vus duration iterations hvus hduration hiterations]

theorem asU32_toNat (n : UInt32) : asU32 n.toNat = n.toNat := Nat.mod_eq_of_lt n.toNat_lt

def vusField (obj : List (Str × Json)) : Except ConfigError ℕ :=
  fieldOr obj "vus" 1 fun v => (required "vus must be a number".toList v.asU64).map asU32

def iterationsField (obj : List (Str × Json)) : Except ConfigError (Option ℕ) :=
  fieldOr obj "iterations" none fun v =>
    (required "iterations must be a number".toList v.asU64).map fun n =>
      if 0 < n then some (asU32 n) else none

theorem vusField_withFlags {n : ℕ} (h : vusField obj = .ok n) (vus : Option UInt32)
    (duration : Option Str) (iterations : Option UInt32) :
    vusField (withFlags obj vus duration iterations) = .ok (flagVus vus n) := by
  have hlookup : (withFlags obj vus duration iterations).lookup "vus".toList =
      (vus.map fun v => Json.number (.posInt v.toNat)).or (obj.lookup "vus".toList) := by
    rw [withFlags, lookup_setField_of_ne (by decide), lookup_setField_of_ne (by decide),
      lookup_setField_self]
  rw [vusField, fieldOr, hlookup]
  cases vus with
  | none => exact h
  | some v =>
      change Except.ok (asU32 v.toNat) = _
      rw [asU32_toNat]
      rfl

theorem iterationsField_withFlags {n : Option ℕ} (h : iterationsField obj = .ok n)
    (vus : Option UInt32) (duration : Option Str) (iterations : Option UInt32) :
    iterationsField (withFlags obj vus duration iterations) =
    .ok (flagIterations iterations n) := by
  rw [iterationsField, fieldOr, withFlags, lookup_setField_self]
  cases iterations with
  | none =>
      rw [Option.map_none, Option.none_or, lookup_setField_of_ne (by decide),
        lookup_setField_of_ne (by decide)]
      exact h
  | some n =>
      change Except.ok (if 0 < n.toNat then some (asU32 n.toNat) else none) = _
      rw [asU32_toNat]
      rfl

theorem durationField_withFlags {key message : String} {default nanos : ℕ}
    (hkey : key.toList = "duration".toList)
    (h : durationField obj key message default = .ok nanos) (vus : Option UInt32)
    (duration : Option Str) (iterations : Option UInt32) :
    durationField (withFlags obj vus duration iterations) key message default =
      flagDuration duration nanos := by
  have hlookup : (withFlags obj vus duration iterations).lookup key.toList =
      (duration.map Json.string).or (obj.lookup key.toList) := by
    rw [hkey, withFlags, lookup_setField_of_ne (by decide), lookup_setField_self,
      lookup_setField_of_ne (by decide)]
  rw [durationField, fieldOr, hlookup]
  cases duration with
  | none => exact h
  | some d => rfl

theorem parseFields_withFlags (h : parseFields debug obj = .ok config) (vus : Option UInt32)
    (duration : Option Str) (iterations : Option UInt32) :
    parseFields debug (withFlags obj vus duration iterations) = do
      let nanos ← flagDuration duration config.duration
      return { config with
        vus := flagVus vus config.vus
        duration := nanos
        iterations := flagIterations iterations config.iterations } := by
  obtain ⟨setupTimeout, hsetup, h⟩ := Except.bind_eq_ok_iff.mp h
  obtain ⟨teardownTimeout, hteardown, h⟩ := Except.bind_eq_ok_iff.mp h
  obtain ⟨parsedVus, hvus, h⟩ := Except.bind_eq_ok_iff.mp h
  obtain ⟨parsedDuration, hduration, h⟩ := Except.bind_eq_ok_iff.mp h
  obtain ⟨parsedIterations, hiterations, h⟩ := Except.bind_eq_ok_iff.mp h
  obtain ⟨discardResponseBodies, h1, h⟩ := Except.bind_eq_ok_iff.mp h
  obtain ⟨maxRedirects, h2, h⟩ := Except.bind_eq_ok_iff.mp h
  obtain ⟨userAgent, h3, h⟩ := Except.bind_eq_ok_iff.mp h
  obtain ⟨noConnectionReuse, h4, h⟩ := Except.bind_eq_ok_iff.mp h
  obtain ⟨noVuConnectionReuse, h5, h⟩ := Except.bind_eq_ok_iff.mp h
  obtain ⟨insecureSkipTlsVerify, h6, h⟩ := Except.bind_eq_ok_iff.mp h
  obtain ⟨tlsVersion, h7, h⟩ := Except.bind_eq_ok_iff.mp h
  obtain ⟨dns, h8, h⟩ := Except.bind_eq_ok_iff.mp h
  obtain ⟨blacklistIps, h9, h⟩ := Except.bind_eq_ok_iff.mp h
  obtain ⟨blockHostnames, h10, h⟩ := Except.bind_eq_ok_iff.mp h
  obtain ⟨throw, h11, h⟩ := Except.bind_eq_ok_iff.mp h
  obtain ⟨consoleOutput, h12, h⟩ := Except.bind_eq_ok_iff.mp h
  obtain ⟨localIps, h13, h⟩ := Except.bind_eq_ok_iff.mp h
  obtain ⟨rps, h14, h⟩ := Except.bind_eq_ok_iff.mp h
  obtain ⟨thresholds, h15, h⟩ := Except.bind_eq_ok_iff.mp h
  obtain ⟨scenarios, h16, h⟩ := Except.bind_eq_ok_iff.mp h
  cases h
  have keep {α : Type} {key : String} {default x : α} {parse : Json → Except ConfigError α}
      (hvus : key.toList ≠ "vus".toList) (hduration : key.toList ≠ "duration".toList)
      (hiterations : key.toList ≠ "iterations".toList)
      (hx : fieldOr obj key default parse = .ok x) :
      fieldOr (withFlags obj vus duration iterations) key default parse = .ok x := by
    rw [fieldOr_withFlags_of_ne vus duration iterations hvus hduration hiterations]
    exact hx
  have hlookup := fun key => @lookup_withFlags_of_ne obj key vus duration iterations
  -- Field by field, in the order in which they are read.
  refine (Except.bind_of_eq_ok (keep (by decide) (by decide) (by decide) hsetup) _).trans ?_
  refine (Except.bind_of_eq_ok (keep (by decide) (by decide) (by decide) hteardown) _).trans ?_
  refine (Except.bind_of_eq_ok (vusField_withFlags hvus vus duration iterations) _).trans ?_
  rw [durationField_withFlags rfl hduration vus duration iterations]
  refine bind_congr fun nanos => ?_
  refine (Except.bind_of_eq_ok
    (iterationsField_withFlags hiterations vus duration iterations) _).trans ?_
  refine (Except.bind_of_eq_ok (keep (by decide) (by decide) (by decide) h1) _).trans ?_
  refine (Except.bind_of_eq_ok (keep (by decide) (by decide) (by decide) h2) _).trans ?_
  refine (Except.bind_of_eq_ok (keep (by decide) (by decide) (by decide) h3) _).trans ?_
  refine (Except.bind_of_eq_ok (keep (by decide) (by decide) (by decide) h4) _).trans ?_
  refine (Except.bind_of_eq_ok (keep (by decide) (by decide) (by decide) h5) _).trans ?_
  refine (Except.bind_of_eq_ok (keep (by decide) (by decide) (by decide) h6) _).trans ?_
  refine (Except.bind_of_eq_ok (keep (by decide) (by decide) (by decide) h7) _).trans ?_
  refine (Except.bind_of_eq_ok (keep (by decide) (by decide) (by decide) h8) _).trans ?_
  refine (Except.bind_of_eq_ok (keep (by decide) (by decide) (by decide) h9) _).trans ?_
  refine (Except.bind_of_eq_ok (keep (by decide) (by decide) (by decide) h10) _).trans ?_
  refine (Except.bind_of_eq_ok (keep (by decide) (by decide) (by decide) h11) _).trans ?_
  refine (Except.bind_of_eq_ok (keep (by decide) (by decide) (by decide) h12) _).trans ?_
  refine (Except.bind_of_eq_ok (keep (by decide) (by decide) (by decide) h13) _).trans ?_
  refine (Except.bind_of_eq_ok (keep (by decide) (by decide) (by decide) h14) _).trans ?_
  refine (Except.bind_of_eq_ok (keep (by decide) (by decide) (by decide) h15) _).trans ?_
  refine (Except.bind_of_eq_ok (keep (by decide) (by decide) (by decide) h16) _).trans ?_
  rw [hlookup "hosts" (by decide) (by decide) (by decide),
    hlookup "httpDebug" (by decide) (by decide) (by decide)]

/-! ## The default scenario -/

/-- The executor of the default scenario. -/
def defaultExecutor (config : TestConfig) : Option ExecutorType :=
  (config.scenarios.find? "default".toList).map ScenarioConfig.executor

/-- The choice for options without scenarios. -/
def chosenExecutor (vus duration : ℕ) (iterations : Option ℕ) : Option ExecutorType :=
  if 0 < vus then
    some (match iterations with
      | some iters => .sharedIterations vus iters duration
      | none => .constantVus vus duration)
  else none

/-- What the options of a script without scenarios are parsed to. -/
theorem parseOptions_of_fields (h : parseFields debug obj = .ok config)
    (hscenarios : config.scenarios = ∅) :
    parseOptions debug (.object obj) = .ok
      { config with
        scenarios :=
          if 0 < config.vus then
            (∅ : KeyMap Str ScenarioConfig).upsert "default".toList fun _ => defaultScenario config
          else ∅ } := by
  change (parseFields debug obj >>= _) = _
  rw [h, Except.ok_bind, hscenarios]
  by_cases hvus : 0 < config.vus
  · rw [if_pos ⟨rfl, hvus⟩, if_pos hvus]
    rfl
  · rw [if_neg fun h => hvus h.2, if_neg hvus, ← hscenarios]
    rfl

theorem defaultExecutor_chosen (config : TestConfig) :
    defaultExecutor { config with
      scenarios :=
        if 0 < config.vus then
          (∅ : KeyMap Str ScenarioConfig).upsert "default".toList fun _ => defaultScenario config
        else ∅ } = chosenExecutor config.vus config.duration config.iterations := by
  rw [defaultExecutor, chosenExecutor.eq_def]
  by_cases hvus : 0 < config.vus
  · rw [if_pos hvus, if_pos hvus, KeyMap.find?_upsert_self]
    rfl
  · rw [if_neg hvus, if_neg hvus]
    rfl

theorem defaultExecutor_tagScenarios (config : TestConfig) (runTags : KeyMap Str Str) :
    defaultExecutor (config.tagScenarios runTags) = defaultExecutor config := by
  rw [defaultExecutor, TestConfig.tagScenarios, KeyMap.find?_mapValues, Option.map_map]
  rfl

/-- What becomes of the default scenario when no stages are given. -/
theorem applyExecutionOverrides_executor (config : TestConfig) {cli : CliOverrides}
    (hstages : cli.stages = []) :
    ∃ config', config.applyExecutionOverrides cli = .ok config' ∧ defaultExecutor config' =
      match cli.iterations, config.scenarios.find? "default".toList with
      | some iters, _ => some (.sharedIterations config.vus iters.toNat config.duration)
      | none, some scenario => some (config.overrideConstantVus cli scenario).executor
      | none, none =>
          if config.scenarios.entries.isEmpty ∧ 0 < config.vus then
            some (.constantVus config.vus config.duration)
          else none := by
  rw [TestConfig.applyExecutionOverrides]
  cases cli.iterations with
  | some iters =>
      refine ⟨_, rfl, ?_⟩
      rw [defaultExecutor, TestConfig.replaceDefaultScenario, KeyMap.find?_upsert_self]
      rfl
  | none =>
      have hempty : (!cli.stages.isEmpty) = false := by rw [hstages]; rfl
      simp only [hempty, Bool.false_eq_true, if_false]
      cases hfind : config.scenarios.find? "default".toList with
      | some scenario =>
          refine ⟨_, rfl, ?_⟩
          rw [defaultExecutor, KeyMap.find?_upsert_self]
          rfl
      | none =>
          simp only
          split
          · refine ⟨_, rfl, ?_⟩
            rw [defaultExecutor, KeyMap.find?_upsert_self]
            rfl
          · refine ⟨_, rfl, ?_⟩
            rw [defaultExecutor, hfind]
            rfl

/-- The choice for the flags, from what the script chose. -/
def overriddenExecutor (config : TestConfig) (vus : Option UInt32) (nanos : ℕ)
    (iterations : Option UInt32) : Option ExecutorType :=
  match iterations with
  | some iters => some (.sharedIterations (flagVus vus config.vus) iters.toNat nanos)
  | none =>
      if 0 < config.vus then
        some (match config.iterations with
          | some iters => .sharedIterations config.vus iters config.duration
          | none => .constantVus (flagVus vus config.vus) nanos)
      else if 0 < flagVus vus config.vus then some (.constantVus (flagVus vus config.vus) nanos)
      else none

theorem applyCliOverrides_eq (config : TestConfig) (vus : Option UInt32) (duration : Option Str)
    (iterations : Option UInt32) (runTags : KeyMap Str Str) :
    config.applyCliOverrides { vus, duration, iterations } runTags = do
      let nanos ← flagDuration duration config.duration
      let config ← (config.applyFlags { vus, duration, iterations } nanos
        config.dns).applyExecutionOverrides { vus, duration, iterations }
      return config.tagScenarios runTags := by
  cases duration with
  | none => rfl
  | some d => rfl

theorem applyCliOverrides_executor {config : TestConfig} (hscenarios : config.scenarios =
      if 0 < config.vus then
        (∅ : KeyMap Str ScenarioConfig).upsert "default".toList fun _ => defaultScenario config
      else ∅) (vus : Option UInt32) (duration : Option Str) (iterations : Option UInt32)
    (runTags : KeyMap Str Str) :
    (config.applyCliOverrides { vus, duration, iterations } runTags).toOption.map defaultExecutor =
      (flagDuration duration config.duration).toOption.map fun nanos =>
        overriddenExecutor config vus nanos iterations := by
  rw [applyCliOverrides_eq]
  cases hnanos : flagDuration duration config.duration with
  | error e => rfl
  | ok nanos =>
      -- Without a flag the duration is that of the script.
      have hduration : (if duration.isSome then nanos else config.duration) = nanos := by
        cases duration with
        | none => exact (Except.ok.inj hnanos).symm ▸ rfl
        | some d => rfl
      obtain ⟨config', hconfig', hexecutor⟩ := @applyExecutionOverrides_executor
        (config.applyFlags { vus, duration, iterations } nanos config.dns)
          { vus, duration, iterations } rfl
      rw [Except.ok_bind, hconfig', Except.ok_bind]
      change some (defaultExecutor (config'.tagScenarios runTags)) =
        some (overriddenExecutor config vus nanos iterations)
      rw [defaultExecutor_tagScenarios, hexecutor, overriddenExecutor.eq_def]
      cases iterations with
      | some iters => rfl
      | none =>
          have hfields : (config.applyFlags { vus, duration, iterations := none } nanos
              config.dns).scenarios = config.scenarios := rfl
          simp only [hfields, hscenarios]
          by_cases hvus : 0 < config.vus
          · simp only [if_pos hvus, KeyMap.find?_upsert_self]
            rw [TestConfig.overrideConstantVus, defaultScenario]
            cases config.iterations with
            | some iters => rfl
            | none => exact congrArg (fun d => some (some (ExecutorType.constantVus
                (flagVus vus config.vus) d))) hduration
          · simp only [if_neg hvus]
            by_cases hflag : 0 < flagVus vus config.vus
            · rw [if_pos hflag]
              exact congrArg some (if_pos ⟨rfl, hflag⟩)
            · rw [if_neg hflag]
              exact congrArg some (if_neg fun h => hflag h.2)

/-- The flags for which both choices agree: an iteration count needs some VU to be shared by, and
without one the options must not have chosen shared iterations, unless neither the VUs nor the
duration change. -/
def FlagsFit (config : TestConfig) (vus : Option UInt32) (nanos : ℕ) : Option UInt32 → Prop
  | some iters => 0 < iters.toNat ∧ 0 < flagVus vus config.vus
  | none =>
      flagVus vus config.vus = 0 ∧ config.vus = 0 ∨
        0 < flagVus vus config.vus ∧ (config.iterations = none ∨
          flagVus vus config.vus = config.vus ∧ nanos = config.duration)

theorem overriddenExecutor_eq_chosen_iff (config : TestConfig) (vus : Option UInt32) (nanos : ℕ)
    (iterations : Option UInt32) :
    overriddenExecutor config vus nanos iterations =
        chosenExecutor (flagVus vus config.vus) nanos
          (flagIterations iterations config.iterations) ↔
      FlagsFit config vus nanos iterations := by
  rw [overriddenExecutor.eq_def, chosenExecutor.eq_def, flagIterations.eq_def, FlagsFit.eq_def]
  generalize flagVus vus config.vus = flag
  cases iterations with
  | some iters =>
      by_cases hiters : 0 < iters.toNat
      · by_cases hflag : 0 < flag
        · simp [hiters, hflag]
        · simp [hiters, hflag]
      · by_cases hflag : 0 < flag
        · simp [hiters, hflag]
        · simp [hiters, hflag]
  | none =>
      cases config.iterations with
      | none =>
          by_cases hvus : 0 < config.vus
          · by_cases hflag : 0 < flag
            · simp [hvus, hflag]
            · simp [hvus, hflag, hvus.ne']
          · by_cases hflag : 0 < flag
            · simp [hvus, hflag]
            · simp only [hvus, hflag, if_false, true_iff]
              omega
      | some iters =>
          by_cases hvus : 0 < config.vus
          · by_cases hflag : 0 < flag
            · simp [hvus, hflag, hflag.ne', eq_comm]
            · simp [hvus, hflag, hvus.ne']
          · by_cases hflag : 0 < flag
            · have hne : flag ≠ config.vus := by omega
              simp [hvus, hflag, hflag.ne', hne]
            · simp only [hvus, hflag, if_false, true_iff]
              omega

theorem parseFields_scenarios_empty
    (hscenarios : ∀ v, obj.lookup "scenarios".toList = some v → v.asObject = some [])
    (h : parseFields debug obj = .ok config) : config.scenarios = ∅ := by
  iterate 20 obtain ⟨_, -, h⟩ := Except.bind_eq_ok_iff.mp h
  obtain ⟨scenarios, hparsed, h⟩ := Except.bind_eq_ok_iff.mp h
  cases h
  change scenarios = ∅
  rw [fieldOr] at hparsed
  cases hlookup : obj.lookup "scenarios".toList with
  | none =>
      rw [hlookup] at hparsed
      exact (Except.ok.inj hparsed).symm
  | some v =>
      rw [hlookup] at hparsed
      change parseScenarios v = _ at hparsed
      rw [parseScenarios, hscenarios v hlookup] at hparsed
      exact (Except.ok.inj hparsed).symm

/-- Flags lead to the default scenario of the options they are written into. -/
theorem applyCliOverrides_agrees_iff
    (hscenarios : ∀ v, obj.lookup "scenarios".toList = some v → v.asObject = some [])
    (h : parseOptions debug (.object obj) = .ok config) (vus : Option UInt32)
    (duration : Option Str) (iterations : Option UInt32) (runTags : KeyMap Str Str) :
    (config.applyCliOverrides { vus, duration, iterations } runTags).toOption.map defaultExecutor =
        (parseOptions debug (.object (withFlags obj vus duration iterations))).toOption.map
          defaultExecutor ↔
      ∀ nanos, flagDuration duration config.duration = .ok nanos →
        FlagsFit config vus nanos iterations := by
  obtain ⟨_, hmembers, hrest⟩ := Except.bind_eq_ok_iff.mp h
  cases hmembers
  obtain ⟨parsed, hparsed, -⟩ := Except.bind_eq_ok_iff.mp hrest
  clear hrest
  have hempty := parseFields_scenarios_empty hscenarios hparsed
  rw [parseOptions_of_fields hparsed hempty] at h
  cases h
  have hfields := parseFields_withFlags hparsed vus duration iterations
  rw [applyCliOverrides_executor rfl]
  cases hnanos : flagDuration duration parsed.duration with
  | error e =>
      rw [hnanos] at hfields
      have hparse : parseOptions debug (.object (withFlags obj vus duration iterations)) =
          .error e := by
        change (parseFields debug _ >>= _) = _
        rw [hfields]
        rfl
      rw [hparse]
      exact ⟨fun _ _ h => (nomatch h), fun _ => rfl⟩
  | ok nanos =>
      rw [hnanos] at hfields
      rw [parseOptions_of_fields hfields hempty]
      have hchosen := defaultExecutor_chosen { parsed with
        vus := flagVus vus parsed.vus
        duration := nanos
        iterations := flagIterations iterations parsed.iterations }
      have hiff := overriddenExecutor_eq_chosen_iff parsed vus nanos iterations
      constructor
      · intro heq nanos' hnanos'
        cases hnanos'
        exact hiff.mp ((Option.some.inj heq).trans hchosen)
      · intro hfit
        exact congrArg some ((hiff.mpr (hfit nanos rfl)).trans hchosen.symm)

end

section Example

def tenVus : List (Str × Json) := [("vus".toList, .number (.posInt 10))]

theorem applyCliOverrides_agrees_tenVus : ∃ config,
    parseOptions ⟨id, fun _ => []⟩ (.object tenVus) = .ok config ∧
      (config.applyCliOverrides { vus := some 20 } ∅).toOption.map defaultExecutor =
        (parseOptions ⟨id, fun _ => []⟩
          (.object (withFlags tenVus (some 20) none none))).toOption.map
          defaultExecutor := by
  have hscenarios : ∀ v, tenVus.lookup "scenarios".toList = some v → v.asObject = some [] :=
    fun _ h => (nomatch h)
  refine ⟨_, rfl, ?_⟩
  exact (applyCliOverrides_agrees_iff hscenarios rfl (some 20) none none ∅).mpr
    fun _ _ => .inr ⟨by decide, .inl rfl⟩

def sharedHundred : List (Str × Json) :=
  [("vus".toList, .number (.posInt 10)), ("iterations".toList, .number (.posInt 100))]

/-- A hundred iterations are still shared by ten VUs when a flag asks for twenty. -/
theorem not_applyCliOverrides_agrees : ∃ config,
    parseOptions ⟨id, fun _ => []⟩ (.object sharedHundred) = .ok config ∧
      (config.applyCliOverrides { vus := some 20 } ∅).toOption.map defaultExecutor ≠
        (parseOptions ⟨id, fun _ => []⟩ (.object (withFlags sharedHundred (some 20) none none))
          ).toOption.map defaultExecutor := by
  refine ⟨_, rfl, fun heq => ?_⟩
  have h : some (some (ExecutorType.sharedIterations 10 100 (10 * secondNanos))) =
      some (some (ExecutorType.sharedIterations 20 100 (10 * secondNanos))) := heq
  cases h

end Example

end K6Rs
