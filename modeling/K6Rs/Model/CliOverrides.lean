import K6Rs.Model.Config

/-! The command-line flags that take the place of options, and the default scenario they lead to. -/

namespace K6Rs

/-- The flags of a run that override its options. -/
structure CliOverrides where
  vus : Option UInt32 := none
  duration : Option Str := none
  iterations : Option UInt32 := none
  stages : List Str := []
  insecureSkipTlsVerify : Bool := false
  noConnectionReuse : Bool := false
  noVuConnectionReuse : Bool := false
  maxRedirects : Option UInt32 := none
  userAgent : Option Str := none
  httpDebug : Option Str := none
  rps : Option UInt32 := none
  throw : Bool := false
  discardResponseBodies : Bool := false
  blacklistIps : List Str := []
  blockHostnames : List Str := []
  localIps : Option Str := none
  dns : Option Str := none
  consoleOutput : Option Str := none

/-! ## Flags with a text -/

/-- The digits of a `u32`, from the left. -/
def parseU32Digits : ℕ → Str → Except ConfigError ℕ
  | n, [] => .ok n
  | n, c :: s =>
      if !FloatLit.isDigit c then bail "invalid digit found in string".toList
      else
        let n := n * 10 + (c.toNat - '0'.toNat)
        if n < 2 ^ 32 then parseU32Digits n s
        else bail "number too large to fit in target type".toList

def parseU32 : Str → Except ConfigError ℕ
  | [] => bail "cannot parse integer from empty string".toList
  | ['+'] => bail "invalid digit found in string".toList
  | '+' :: s => parseU32Digits 0 s
  | s => parseU32Digits 0 s

def parseStageFlags (stages : List Str) : Except ConfigError (List Stage) :=
  stages.mapM fun s => do
    match Str.splitOnce ':' s with
    | (_, none) =>
        bail ("invalid --stage format '".toList ++ s ++ "', expected duration:target".toList)
    | (dur, some target) => do
        let duration ← parseDuration dur
        let target ← withContext ("invalid target VU count in --stage '".toList ++ s ++ "'".toList)
          (parseU32 target)
        return ⟨duration, target⟩

def parseDnsPart (dns : DnsConfig) (part : Str) : Except ConfigError DnsConfig :=
  match Str.splitOnce '=' (Str.trim part) with
  | (_, none) => .ok dns
  | (key, some val) =>
      if Str.trim key = "ttl".toList then .ok { dns with ttl := some (Str.trim val) }
      else if Str.trim key = "select".toList then .ok { dns with select := some (Str.trim val) }
      else if Str.trim key = "policy".toList then .ok { dns with policy := some (Str.trim val) }
      else bail ("unknown DNS option: ".toList ++ Str.trim key)

def parseDnsFlag (s : Str) : Except ConfigError DnsConfig := do
  let dns ← (List.splitOn ',' s).foldlM parseDnsPart ⟨none, none, none⟩
  dns.validate
  return dns

/-! ## The default scenario -/

def defaultScenarioWithExecutor (executor : ExecutorType) : ScenarioConfig where
  executor
  exec := none
  startTime := 0
  gracefulStop := 30 * secondNanos
  env := ∅
  tags := ∅

namespace TestConfig

def defaultScenarioTemplate (config : TestConfig) : ScenarioConfig :=
  (config.scenarios.find? "default".toList).getD
    (defaultScenarioWithExecutor (.constantVus config.vus config.duration))

def replaceDefaultScenario (config : TestConfig) (template : ScenarioConfig)
    (executor : ExecutorType) : TestConfig :=
  { config with
    scenarios := (∅ : KeyMap Str ScenarioConfig).upsert "default".toList fun _ =>
      { template with executor } }

/-- The default scenario with the number of VUs and the duration of the flags, if it runs a constant
number of VUs. -/
def overrideConstantVus (config : TestConfig) (cli : CliOverrides) (scenario : ScenarioConfig) :
    ScenarioConfig :=
  match scenario.executor with
  | .constantVus vus duration =>
      { scenario with
        executor := .constantVus ((cli.vus.map UInt32.toNat).getD vus)
          (if cli.duration.isSome then config.duration else duration) }
  | _ => scenario

def applyExecutionOverrides (config : TestConfig) (cli : CliOverrides) :
    Except ConfigError TestConfig :=
  match cli.iterations with
  | some iters =>
      .ok (config.replaceDefaultScenario config.defaultScenarioTemplate
        (.sharedIterations config.vus iters.toNat config.duration))
  | none =>
      if !cli.stages.isEmpty then do
        let stages ← parseStageFlags cli.stages
        let template := config.defaultScenarioTemplate
        let gracefulRampDown :=
          match template.executor with
          | .rampingVus _ _ gracefulRampDown => gracefulRampDown
          | _ => 30 * secondNanos
        return config.replaceDefaultScenario template
          (.rampingVus config.vus stages gracefulRampDown)
      else
        match config.scenarios.find? "default".toList with
        | none =>
            if config.scenarios.entries.isEmpty ∧ 0 < config.vus then
              .ok { config with
                scenarios := config.scenarios.upsert "default".toList fun _ =>
                  defaultScenarioWithExecutor (.constantVus config.vus config.duration) }
            else .ok config
        | some scenario =>
            .ok { config with
              scenarios := config.scenarios.upsert "default".toList fun _ =>
                config.overrideConstantVus cli scenario }

/-! ## All flags -/

/-- The flags next to the scenarios. -/
def applyFlags (config : TestConfig) (cli : CliOverrides) (duration : ℕ) (dns : Option DnsConfig) :
    TestConfig :=
  { config with
    vus := (cli.vus.map UInt32.toNat).getD config.vus
    duration
    insecureSkipTlsVerify := cli.insecureSkipTlsVerify || config.insecureSkipTlsVerify
    noConnectionReuse := cli.noConnectionReuse || config.noConnectionReuse
    noVuConnectionReuse := cli.noVuConnectionReuse || config.noVuConnectionReuse
    maxRedirects := (cli.maxRedirects.map UInt32.toNat).or config.maxRedirects
    userAgent := cli.userAgent.or config.userAgent
    httpDebug := cli.httpDebug.or config.httpDebug
    rps := (cli.rps.map UInt32.toNat).getD config.rps
    throw := cli.throw || config.throw
    discardResponseBodies := cli.discardResponseBodies || config.discardResponseBodies
    blacklistIps := if cli.blacklistIps.isEmpty then config.blacklistIps else cli.blacklistIps
    blockHostnames :=
      if cli.blockHostnames.isEmpty then config.blockHostnames else cli.blockHostnames
    localIps :=
      match cli.localIps with
      | some v => (List.splitOn ',' v).map Str.trim
      | none => config.localIps
    dns
    consoleOutput := cli.consoleOutput.or config.consoleOutput }

def tagScenarios (config : TestConfig) (runTags : KeyMap Str Str) : TestConfig :=
  { config with
    scenarios := config.scenarios.mapValues fun scenario =>
      { scenario with
        tags := runTags.entries.foldl (fun tags tag => tags.upsert tag.1 fun _ => tag.2)
          scenario.tags } }

def applyCliOverrides (config : TestConfig) (cli : CliOverrides) (runTags : KeyMap Str Str) :
    Except ConfigError TestConfig := do
  let duration ← match cli.duration with
    | some d => parseDuration d
    | none => .ok config.duration
  let dns ← match cli.dns with
    | some v => (parseDnsFlag v).map some
    | none => .ok config.dns
  let config ← (config.applyFlags cli duration dns).applyExecutionOverrides cli
  return config.tagScenarios runTags

end TestConfig

end K6Rs
