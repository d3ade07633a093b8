import K6Rs.Library.Json
import K6Rs.Library.KeyMap
import K6Rs.Model.ArrivalCurve
import K6Rs.Model.RunDiff

/-! The options of a script, from their JSON object. Durations are in nanoseconds. -/

namespace K6Rs

open FloatOps

/-- The messages of an error, the outermost context first. -/
abbrev ConfigError := List Str

/-- How the language prints a text or a value in a message. -/
structure DebugFormat where
  text : Str → Str
  value : Json → Str

def bail {α : Type} (message : Str) : Except ConfigError α := .error [message]

def required {α : Type} (message : Str) : Option α → Except ConfigError α
  | some x => .ok x
  | none => bail message

def withContext {α : Type} (message : Str) : Except ConfigError α → Except ConfigError α
  | .ok x => .ok x
  | .error chain => .error (message :: chain)

/-! ## Durations -/

/-- The digits at the front, with a point and the digits after it. -/
def scanNumber (s : Str) : Str × Str :=
  let int := s.takeWhile FloatLit.isDigit
  match s.dropWhile FloatLit.isDigit with
  | '.' :: rest =>
      (int ++ '.' :: rest.takeWhile FloatLit.isDigit, rest.dropWhile FloatLit.isDigit)
  | rest => (int, rest)

def isUnitChar (c : Char) : Bool := c.isAlpha || c = 'µ'

/-- The rest of what a duration asks of floats. -/
class FloatRound (F : Type) where
  isFinite : F → Bool
  /-- The nearest integer, away from zero of two. -/
  roundAway : F → F

instance : FloatRound Double where
  isFinite x := x.IsFinite
  roundAway := Double.roundAway

instance : FloatRound ℚ where
  isFinite _ := true
  roundAway q := if 0 ≤ q then ⌊q + 1 / 2⌋ else -⌊-q + 1 / 2⌋

section

variable {F : Type} [FloatOps F] [FloatParse F] [FloatRound F]

def parseF64 (message : Str) (s : Str) : Except ConfigError F :=
  match FloatLit.parse s with
  | some lit => .ok (FloatParse.ofLit lit)
  | none => .error [message, "invalid float literal".toList]

def unitNanos (unit : Str) (number : F) : Except ConfigError F :=
  if unit = "ns".toList then .ok number
  else if unit = "us".toList ∨ unit = "µs".toList then .ok (mul number (ofNat 1000))
  else if unit = "ms".toList then .ok (mul number (ofNat 1000000))
  else if unit = "s".toList then .ok (mul number (ofNat 1000000000))
  else if unit = "m".toList then .ok (mul (mul number (ofNat 60)) (ofNat 1000000000))
  else if unit = "h".toList then
    .ok (mul (mul (mul number (ofNat 60)) (ofNat 60)) (ofNat 1000000000))
  else if unit = "d".toList then
    .ok (mul (mul (mul (mul number (ofNat 24)) (ofNat 60)) (ofNat 60)) (ofNat 1000000000))
  else bail ("unknown duration unit: ".toList ++ unit)

/-- The loop over the components of the duration `s`. Each takes a character, so that the length of
the rest is fuel enough. -/
def componentNanos (s : Str) : ℕ → Str → F → Except ConfigError F
  | _, [], totalNanos => .ok totalNanos
  | 0, _ :: _, totalNanos => .ok totalNanos
  | fuel + 1, c :: rest, totalNanos => do
      let (digits, rest) := scanNumber (c :: rest)
      if !digits.any FloatLit.isDigit then
        bail ("invalid number in duration: ".toList ++ s)
      let number ← parseF64 ("invalid number in duration: ".toList ++ s) digits
      let unit := rest.takeWhile isUnitChar
      if unit.isEmpty then bail ("missing duration unit in: ".toList ++ s)
      let nanos ← unitNanos unit number
      componentNanos s fuel (rest.dropWhile isUnitChar) (add totalNanos nanos)

/-- `Duration::from_nanos(nanos.round() as u64)`. -/
def fromNanosRounded (nanos : F) : ℕ := toU64 (FloatRound.roundAway nanos)

variable (F)

def parseComponents (s : Str) : Except ConfigError ℕ := do
  let totalNanos : F ← componentNanos s s.length s zero
  if !FloatRound.isFinite totalNanos || lt totalNanos zero then
    bail ("duration out of range: ".toList ++ s)
  return fromNanosRounded totalNanos

/-- `parse_duration` with the floats of `F`. -/
def parseDurationIn (s : Str) : Except ConfigError ℕ :=
  let s := Str.trim s
  if s.isEmpty then bail "empty duration string".toList
  else if s.head? = some '-' then bail ("duration must be non-negative: ".toList ++ s)
  else if s.all FloatLit.isDigit then
    if FloatLit.digits s < 2 ^ 64 then .ok (FloatLit.digits s * 10 ^ 6)
    else bail "number too large to fit in target type".toList
  else if (s.all fun c => FloatLit.isDigit c || c = '.') ∧ s.count '.' = 1 then do
    let millis : F ← parseF64 ("invalid number in duration: ".toList ++ s) s
    if FloatRound.isFinite millis && le zero millis then
      return fromNanosRounded (mul millis (ofNat 1000000))
    else parseComponents F s
  else parseComponents F s

end

def parseDuration (s : Str) : Except ConfigError ℕ := parseDurationIn Double s

/-! ## Fields -/

/-- `v as u32`. -/
def asU32 (n : ℕ) : ℕ := n % 2 ^ 32

def missing (key : Str) : Str := "missing or invalid '".toList ++ key ++ "'".toList

def getU32 (obj : List (Str × Json)) (key : Str) : Except ConfigError ℕ :=
  required (missing key) (((obj.lookup key).bind Json.asU64).map asU32)

def getDuration (obj : List (Str × Json)) (key : Str) : Except ConfigError ℕ := do
  parseDuration (← required (missing key) ((obj.lookup key).bind Json.asStr))

def getDurationOr (obj : List (Str × Json)) (key : Str) (default : ℕ) : ℕ :=
  (((obj.lookup key).bind Json.asStr).bind fun s => (parseDuration s).toOption).getD default

def parseStringArray (value : Json) : Except ConfigError (List Str) := do
  (← required "expected an array".toList value.asArray).mapM fun v =>
    required "array elements must be strings".toList v.asStr

def parseStringMap (value : Option Json) : KeyMap Str Str :=
  (((value.bind Json.asObject).getD []).filterMap fun (k, v) => v.asStr.map (Prod.mk k)).foldl
    (fun m entry => m.upsert entry.1 fun _ => entry.2) ∅

structure TlsVersionConfig where
  min : Option Str
  max : Option Str

def parseTlsVersion : Json → Except ConfigError TlsVersionConfig
  | .string s => .ok ⟨some s, some s⟩
  | .object obj =>
      .ok ⟨(obj.lookup "min".toList).bind Json.asStr, (obj.lookup "max".toList).bind Json.asStr⟩
  | _ => bail "tlsVersion must be a string or object with min/max".toList

structure DnsConfig where
  ttl : Option Str
  select : Option Str
  policy : Option Str

def DnsConfig.validate (config : DnsConfig) : Except ConfigError Unit := do
  if let some select := config.select then
    if select ∉ ["first".toList, "random".toList, "roundRobin".toList] then
      bail ("invalid dns.select: ".toList ++ select)
  if let some policy := config.policy then
    if policy ∉ ["preferIPv4".toList, "preferIPv6".toList, "onlyIPv4".toList, "onlyIPv6".toList,
        "any".toList] then
      bail ("invalid dns.policy: ".toList ++ policy)
  if let some ttl := config.ttl then
    if ttl ≠ "inf".toList then
      let _ ← withContext ("invalid dns.ttl: ".toList ++ ttl) (parseDuration ttl)

def parseDnsConfig (value : Json) : Except ConfigError DnsConfig := do
  let obj ← required "dns must be an object".toList value.asObject
  let config : DnsConfig :=
    { ttl := (obj.lookup "ttl".toList).bind Json.asStr
      select := (obj.lookup "select".toList).bind Json.asStr
      policy := (obj.lookup "policy".toList).bind Json.asStr }
  config.validate
  return config

/-! ## Scenarios -/

inductive ExecutorType where
  | constantVus (vus duration : ℕ)
  | rampingVus (startVus : ℕ) (stages : List Stage) (gracefulRampDown : ℕ)
  | constantArrivalRate (rate timeUnit duration preAllocatedVus : ℕ) (maxVus : Option ℕ)
  | rampingArrivalRate (startRate : ℕ) (stages : List Stage) (timeUnit preAllocatedVus : ℕ)
      (maxVus : Option ℕ)
  | perVuIterations (vus iterations maxDuration : ℕ)
  | sharedIterations (vus iterations maxDuration : ℕ)

structure ScenarioConfig where
  executor : ExecutorType
  exec : Option Str
  startTime : ℕ
  gracefulStop : ℕ
  env : KeyMap Str Str
  tags : KeyMap Str Str

def parseStage (v : Json) : Except ConfigError Stage := do
  let obj ← required "stage must be an object".toList v.asObject
  let duration ← getDuration obj "duration".toList
  let target ← withContext "stage requires 'target'".toList (getU32 obj "target".toList)
  return ⟨duration, target⟩

def parseStages (value : Json) : Except ConfigError (List Stage) := do
  (← required "stages must be an array".toList value.asArray).mapM parseStage

def secondNanos : ℕ := 10 ^ 9

def parseConstantArrivalRate (obj : List (Str × Json)) : Except ConfigError ExecutorType := do
  let rate ← withContext "constant-arrival-rate requires 'rate'".toList (getU32 obj "rate".toList)
  let timeUnit := getDurationOr obj "timeUnit".toList secondNanos
  let duration ← getDuration obj "duration".toList
  let preAllocatedVus ← withContext "constant-arrival-rate requires 'preAllocatedVUs'".toList
    (getU32 obj "preAllocatedVUs".toList)
  return .constantArrivalRate rate timeUnit duration preAllocatedVus
    (getU32 obj "maxVUs".toList).toOption

def parseRampingArrivalRate (obj : List (Str × Json)) : Except ConfigError ExecutorType := do
  let startRate := (getU32 obj "startRate".toList).toOption.getD 0
  let stages ← parseStages
    (← required "ramping-arrival-rate requires 'stages'".toList (obj.lookup "stages".toList))
  let timeUnit := getDurationOr obj "timeUnit".toList secondNanos
  let preAllocatedVus ← withContext "ramping-arrival-rate requires 'preAllocatedVUs'".toList
    (getU32 obj "preAllocatedVUs".toList)
  return .rampingArrivalRate startRate stages timeUnit preAllocatedVus
    (getU32 obj "maxVUs".toList).toOption

def parseExecutor (obj : List (Str × Json)) (executorType : Str) :
    Except ConfigError ExecutorType :=
  let vus := (getU32 obj "vus".toList).toOption.getD 1
  let iterations := (getU32 obj "iterations".toList).toOption.getD 1
  let maxDuration := getDurationOr obj "maxDuration".toList (600 * secondNanos)
  if executorType = "constant-vus".toList then do
    return .constantVus vus (← getDuration obj "duration".toList)
  else if executorType = "ramping-vus".toList then do
    let stages ← parseStages
      (← required "ramping-vus requires 'stages'".toList (obj.lookup "stages".toList))
    return .rampingVus ((getU32 obj "startVUs".toList).toOption.getD 1) stages
      (getDurationOr obj "gracefulRampDown".toList (30 * secondNanos))
  else if executorType = "constant-arrival-rate".toList then parseConstantArrivalRate obj
  else if executorType = "ramping-arrival-rate".toList then parseRampingArrivalRate obj
  else if executorType = "per-vu-iterations".toList then
    .ok (.perVuIterations vus iterations maxDuration)
  else if executorType = "shared-iterations".toList then
    .ok (.sharedIterations vus iterations maxDuration)
  else bail ("unknown executor type '".toList ++ executorType ++ "'".toList)

def parseScenario (val : Json) : Except ConfigError ScenarioConfig := do
  let obj ← required "scenario must be an object".toList val.asObject
  let executorType ← required "scenario must have an 'executor' string".toList
    ((obj.lookup "executor".toList).bind Json.asStr)
  let executor ← parseExecutor obj executorType
  return { executor
           exec := (obj.lookup "exec".toList).bind Json.asStr
           startTime := getDurationOr obj "startTime".toList 0
           gracefulStop := getDurationOr obj "gracefulStop".toList (30 * secondNanos)
           env := parseStringMap (obj.lookup "env".toList)
           tags := parseStringMap (obj.lookup "tags".toList) }

def parseScenarios (value : Json) : Except ConfigError (KeyMap Str ScenarioConfig) := do
  let obj ← required "scenarios must be an object".toList value.asObject
  obj.foldlM (fun scenarios (name, val) => do
    let scenario ← withContext ("in scenario '".toList ++ name ++ "'".toList) (parseScenario val)
    return scenarios.upsert name fun _ => scenario) ∅

/-! ## Thresholds -/

section

variable (debug : DebugFormat)

def Threshold.fromExpression (expression : Str) : Threshold := ⟨expression, false, 0⟩

def parseOneThreshold (metricName : Str) (v : Json) : Except ConfigError Threshold :=
  let owner := "threshold for ".toList ++ metricName
  match v with
  | .string s => .ok (Threshold.fromExpression s)
  | .object obj => do
      let expression ← required ("threshold object for ".toList ++ metricName ++
          " missing required string field `threshold`".toList)
        ((obj.lookup "threshold".toList).bind Json.asStr)
      let abortOnFail := ((obj.lookup "abortOnFail".toList).bind Json.asBool).getD false
      let delayAbortEval ← match obj.lookup "delayAbortEval".toList with
        | none => .ok 0
        | some (.string s) =>
            withContext (owner ++ ": invalid delayAbortEval ".toList ++ debug.text s)
              (parseDuration s)
        | some other =>
            bail (owner ++ ": delayAbortEval must be a duration string, got ".toList ++
              debug.value other)
      return ⟨expression, abortOnFail, delayAbortEval⟩
  | v =>
      bail ("threshold entry for ".toList ++ metricName ++
        " must be a string or object, got ".toList ++ debug.value v)

def parseThresholds (value : Json) : Except ConfigError (KeyMap Str (List Threshold)) := do
  let obj ← required "thresholds must be an object".toList value.asObject
  obj.foldlM (fun thresholds (name, val) => do
    let conditions ← match val with
      | .array arr => arr.mapM (parseOneThreshold debug name)
      | .string s => .ok [Threshold.fromExpression s]
      | _ =>
          bail ("threshold for ".toList ++ name ++
            " must be a string, array of strings, or array of objects".toList)
    return thresholds.upsert name fun _ => conditions) ∅

/-! ## Options -/

structure TestConfig where
  setupTimeout : ℕ
  teardownTimeout : ℕ
  vus : ℕ
  duration : ℕ
  iterations : Option ℕ
  scenarios : KeyMap Str ScenarioConfig
  discardResponseBodies : Bool
  maxRedirects : Option ℕ
  userAgent : Option Str
  noConnectionReuse : Bool
  noVuConnectionReuse : Bool
  insecureSkipTlsVerify : Bool
  thresholds : KeyMap Str (List Threshold)
  tlsVersion : Option TlsVersionConfig
  dns : Option DnsConfig
  blacklistIps : List Str
  blockHostnames : List Str
  hosts : KeyMap Str Str
  httpDebug : Option Str
  throw : Bool
  consoleOutput : Option Str
  localIps : List Str
  rps : ℕ

/-- A field that is there is parsed, and another has its default. -/
def fieldOr {α : Type} (obj : List (Str × Json)) (key : String) (default : α)
    (parse : Json → Except ConfigError α) : Except ConfigError α :=
  match obj.lookup key.toList with
  | some v => parse v
  | none => .ok default

def durationField (obj : List (Str × Json)) (key message : String) (default : ℕ) :
    Except ConfigError ℕ :=
  fieldOr obj key default fun v => do parseDuration (← required message.toList v.asStr)

def boolField (obj : List (Str × Json)) (key message : String) : Except ConfigError Bool :=
  fieldOr obj key false fun v => required message.toList v.asBool

/-- The scenario that runs when the options define none and some VUs. -/
def defaultScenario (config : TestConfig) : ScenarioConfig where
  executor :=
    match config.iterations with
    | some iters => .sharedIterations config.vus iters config.duration
    | none => .constantVus config.vus config.duration
  exec := none
  startTime := 0
  gracefulStop := 30 * secondNanos
  env := ∅
  tags := ∅

def parseFields (obj : List (Str × Json)) : Except ConfigError TestConfig := do
  let timeout := 60 * secondNanos
  let setupTimeout ← durationField obj "setupTimeout" "setupTimeout must be a duration string"
    timeout
  let teardownTimeout ← durationField obj "teardownTimeout"
    "teardownTimeout must be a duration string" timeout
  let vus ← fieldOr obj "vus" 1 fun v =>
    (required "vus must be a number".toList v.asU64).map asU32
  let duration ← durationField obj "duration" "duration must be a string" (10 * secondNanos)
  let iterations ← fieldOr obj "iterations" none fun v =>
    (required "iterations must be a number".toList v.asU64).map fun n =>
      if 0 < n then some (asU32 n) else none
  let discardResponseBodies ← boolField obj "discardResponseBodies"
    "discardResponseBodies must be bool"
  let maxRedirects ← fieldOr obj "maxRedirects" none fun v =>
    (required "maxRedirects must be a number".toList v.asU64).map fun n => some (asU32 n)
  let userAgent ← fieldOr obj "userAgent" none fun v =>
    (required "userAgent must be a string".toList v.asStr).map some
  let noConnectionReuse ← boolField obj "noConnectionReuse" "noConnectionReuse must be bool"
  let noVuConnectionReuse ← boolField obj "noVUConnectionReuse" "noVUConnectionReuse must be bool"
  let insecureSkipTlsVerify ← boolField obj "insecureSkipTLSVerify"
    "insecureSkipTLSVerify must be bool"
  let tlsVersion ← fieldOr obj "tlsVersion" none fun v => (parseTlsVersion v).map some
  let dns ← fieldOr obj "dns" none fun v => (parseDnsConfig v).map some
  let blacklistIps ← fieldOr obj "blacklistIPs" [] parseStringArray
  let blockHostnames ← fieldOr obj "blockHostnames" [] parseStringArray
  let hosts := parseStringMap (obj.lookup "hosts".toList)
  let httpDebug := (obj.lookup "httpDebug".toList).map fun v => v.asStr.getD "full".toList
  let throw ← boolField obj "throw" "throw must be bool"
  let consoleOutput ← fieldOr obj "consoleOutput" none fun v =>
    (required "consoleOutput must be a string".toList v.asStr).map some
  let localIps ← fieldOr obj "localIPs" [] parseStringArray
  let rps ← fieldOr obj "rps" 0 fun v =>
    (required "rps must be a number".toList v.asU64).map asU32
  let thresholds ← fieldOr obj "thresholds" ∅ (parseThresholds debug)
  let scenarios ← fieldOr obj "scenarios" ∅ parseScenarios
  return { setupTimeout, teardownTimeout, vus, duration, iterations, scenarios
           discardResponseBodies, maxRedirects, userAgent, noConnectionReuse, noVuConnectionReuse
           insecureSkipTlsVerify, thresholds, tlsVersion, dns, blacklistIps, blockHostnames, hosts
           httpDebug, throw, consoleOutput, localIps, rps }

def parseOptions (options : Json) : Except ConfigError TestConfig := do
  let obj ← required "options must be a JSON object".toList options.asObject
  let config ← parseFields debug obj
  if config.scenarios.entries.isEmpty ∧ 0 < config.vus then
    let scenarios := config.scenarios.upsert "default".toList fun _ => defaultScenario config
    return { config with scenarios }
  else return config

end

end K6Rs
