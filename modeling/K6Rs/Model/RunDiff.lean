import K6Rs.Library.Double
import K6Rs.Model.Thresholds
import K6Rs.Model.GroupSummary
import K6Rs.Model.JsonStream
import Mathlib.Data.List.Destutter

/-! The comparison of two canonical runs under the tolerances of a script. Both sides are walked by
the union of their keys; neither side is special. -/

namespace K6Rs

open FloatOps

instance : FloatParse Double where
  ofLit
    | .nan => .nan
    | .inf neg => Double.ofMag neg infMag
    | .dec neg mantissa exp => Double.round neg (mantissa * 10 ^ exp)

/-- How the details of a finding print floats and quoted texts. -/
structure DetailFormat (F : Type) where
  display : F → Str
  fixed : ℕ → F → Str
  quoted : Str → Str

inductive FindingKind where
  | missingMetric
  | drift
  | exitCode
  | kindMismatch
  | missingCheck
  | checkCountMismatch
  | checkIdMismatch
  | missingGroup
  | groupIdMismatch
  | missingMetricDef
  | metricKindMismatch
  | metricContainsMismatch
  | sampleCountMismatch
  | streamFileError
  | sidecarUnreadable
  deriving DecidableEq

structure DiffFinding where
  kind : FindingKind
  selector : Str
  detail : Str
  deriving DecidableEq

/-! ## Expectations -/

inductive Tolerance (F : Type) where
  | exact
  | relative (eps : F)
  | ignore

def Tolerance.parse {F : Type} [FloatOps F] [FloatParse F] (s : Str) : Option (Tolerance F) :=
  if s = "exact".toList then some .exact
  else if s = "ignore".toList then some .ignore
  else if "relative:".toList.isPrefixOf s then
    (parseFloat (s.drop "relative:".toList.length)).map .relative
  else none

structure ToleranceProfile (F : Type) where
  count : Tolerance F
  rate : Tolerance F
  trend : Tolerance F

structure RawOverride where
  count : Option Str
  rate : Option Str
  trend : Option Str

structure Expectations (F : Type) where
  defaultCounter : Tolerance F
  defaultTrend : Tolerance F
  overrides : SortedMap Str RawOverride
  knownDrift : SortedMap Str Str

namespace Expectations

variable {F : Type} [FloatOps F] [FloatParse F]

/-- An override that does not parse gives way to the default. -/
def toleranceFor (exp : Expectations F) (selector : Str) : ToleranceProfile F :=
  let o := exp.overrides.find? selector
  let field (raw : RawOverride → Option Str) (default : Tolerance F) : Tolerance F :=
    ((o.bind raw).bind Tolerance.parse).getD default
  { count := field RawOverride.count exp.defaultCounter
    rate := field RawOverride.rate exp.defaultTrend
    trend := field RawOverride.trend exp.defaultTrend }

/-- The text of the error of a tolerance that does not parse. -/
def toleranceError (s : Str) : Str :=
  if "relative:".toList.isPrefixOf s then "relative tolerance must be a number".toList
  else "invalid tolerance: ".toList ++ s

def parseTolerance (s : Str) : Except Str (Tolerance F) :=
  match Tolerance.parse s with
  | some tol => .ok tol
  | none => .error (toleranceError s)

omit [FloatOps F] [FloatParse F] in
def isKnownDrift (exp : Expectations F) (selector : Str) : Bool := exp.knownDrift.contains selector

end Expectations

structure RawRun where
  expectedExitCode : Option ℤ
  vus : Option ℕ
  iterations : Option ℕ
  duration : Option Str

structure RawTolerances where
  defaultCounter : Option Str
  defaultTrend : Option Str
  overrides : Option (SortedMap Str RawOverride)

/-- An expectations file, as the TOML library reads it. -/
structure RawExpectations where
  run : RawRun
  tolerances : RawTolerances
  knownDrift : Option (SortedMap Str Str)

/-- The expectations of a script with the workload that its file asks for. -/
structure ScriptExpectations (F : Type) extends Expectations F where
  expectedExitCode : ℤ
  vus : Option ℕ
  iterations : Option ℕ
  duration : Option Str

/-- `Expectations::load`, from what the path reads as and the TOML library makes of it. The defaults
are parsed, the overrides are kept as they are written. -/
def Expectations.load {F : Type} [FloatOps F] [FloatParse F]
    (fromStr : Str → Option RawExpectations)
    (path : Str) (file : Option Str) : Except Str (ScriptExpectations F) := do
  let raw ← match file with
    | some raw => .ok raw
    | none => .error ("reading ".toList ++ path)
  let parsed ← match fromStr raw with
    | some parsed => .ok parsed
    | none => .error "parsing expectations.toml".toList
  let defaultCounter ← parseTolerance (parsed.tolerances.defaultCounter.getD "exact".toList)
  let defaultTrend ← parseTolerance (parsed.tolerances.defaultTrend.getD "relative:0.05".toList)
  return {
    expectedExitCode := parsed.run.expectedExitCode.getD 0
    vus := parsed.run.vus
    iterations := parsed.run.iterations
    duration := parsed.run.duration
    defaultCounter := defaultCounter
    defaultTrend := defaultTrend
    overrides := parsed.tolerances.overrides.getD ∅
    knownDrift := parsed.knownDrift.getD ∅ }

/-! ## Runs -/

structure CanonicalTrend (F : Type) where
  count : Option ℕ
  avg : F
  min : F
  med : F
  max : F
  p90 : F
  p95 : F
  p99 : Option F

inductive CanonicalMetricKind (F : Type) where
  | counter (count rate : F)
  | gauge (value min max : F)
  | rate (rate : F) (passes fails : ℕ)
  | trend (trend : CanonicalTrend F)

def CanonicalMetricKindTag.asStr : CanonicalMetricKindTag → Str
  | counter => "counter".toList
  | gauge => "gauge".toList
  | rate => "rate".toList
  | trend => "trend".toList

structure CanonicalRun (F : Type) where
  metrics : SortedMap Str (CanonicalMetricKind F)
  exitCode : ℤ
  checks : SortedMap Str CanonicalCheck
  groups : SortedMap Str CanonicalGroup
  eventStream : Option CanonicalEventStream

/-! ## Tolerances -/

section

variable {F : Type} [FloatOps F] (text : DetailFormat F)

/-- The relative drift; it is zero for two numbers near zero. -/
def relativeDrift (a b : F) : F :=
  let mag := maxNum (abs a) (abs b)
  if lt mag epsilon then zero else div (abs (sub a b)) mag

/-- The detail of a breach of the tolerance. -/
def checkTolerance (field : Str) (a b : F) : Tolerance F → Option Str
  | .exact =>
      if lt epsilon (abs (sub a b)) then
        some (field ++ ": ".toList ++ text.display a ++ " vs ".toList ++ text.display b ++
          " (exact required)".toList)
      else none
  | .relative eps =>
      let d := relativeDrift a b
      if lt eps d then
        some (field ++ ": ".toList ++ text.display a ++ " vs ".toList ++ text.display b ++
          " (Δ=".toList ++ text.fixed 3 (mul d (ofNat 100)) ++ "%, allowed ".toList ++
          text.fixed 1 (mul eps (ofNat 100)) ++ "%)".toList)
      else none
  | .ignore => none

/-- The finding of a field that drifts. -/
def driftFinding (selector field : Str) (a b : F) (tol : Tolerance F) : List DiffFinding :=
  (checkTolerance text field a b tol).toList.map fun detail => ⟨.drift, selector, detail⟩

def countersDiff (selector : Str) (a b : F × F) (tol : ToleranceProfile F) : List DiffFinding :=
  driftFinding text selector "count".toList a.1 b.1 tol.count ++
    driftFinding text selector "rate".toList a.2 b.2 tol.rate

/-- A field is compared when both sides have it. -/
def optionalDrift (selector field : Str) (tol : Tolerance F) :
    Option F → Option F → List DiffFinding
  | some a, some b => driftFinding text selector field a b tol
  | _, _ => []

def trendsDiff (selector : Str) (a b : CanonicalTrend F) (tol : ToleranceProfile F) :
    List DiffFinding :=
  optionalDrift text selector "count".toList tol.count (a.count.map ofNat) (b.count.map ofNat) ++
    [("avg".toList, a.avg, b.avg), ("med".toList, a.med, b.med), ("p90".toList, a.p90, b.p90),
      ("p95".toList, a.p95, b.p95)].flatMap (fun row =>
        driftFinding text selector row.1 row.2.1 row.2.2 tol.trend) ++
    optionalDrift text selector "p99".toList tol.trend a.p99 b.p99

/-! ## The walk over a union of keys -/

/-- The keys of both maps, sorted and without repetitions. -/
def unionKeys {ν : Type} (l r : SortedMap Str ν) : List Str :=
  ((l.entries.map Prod.fst ++ r.entries.map Prod.fst).insertionSort (· ≤ ·)).destutter (· ≠ ·)

/-- The findings of each key that is not a known drift. -/
def diffUnion {ν : Type} (exp : Expectations F) (l r : SortedMap Str ν)
    (entry : Str → Option ν → Option ν → List DiffFinding) : List DiffFinding :=
  (unionKeys l r).flatMap fun key =>
    if exp.isKnownDrift key then [] else entry key (l.find? key) (r.find? key)

/-- What is on one side only is missing; a key of the union is never on neither. -/
def diffPresent {ν : Type} (missing : DiffFinding) (both : ν → ν → List DiffFinding) :
    Option ν → Option ν → List DiffFinding
  | some l, some r => both l r
  | none, none => []
  | _, _ => [missing]

def diffMetricKinds (sel : Str) (tol : ToleranceProfile F) :
    CanonicalMetricKind F → CanonicalMetricKind F → List DiffFinding
  | .counter lc lr, .counter rc rr => countersDiff text sel (lc, lr) (rc, rr) tol
  | .trend lt, .trend rt => trendsDiff text sel lt rt tol
  | .gauge .., .gauge .. => []
  | .rate .., .rate .. => []
  | _, _ => [⟨.kindMismatch, sel, "metric kind differs between runs".toList⟩]

/-- Two identifiers are compared when neither is empty. -/
def diffIds (kind : FindingKind) (path l r : Str) : List DiffFinding :=
  if !l.isEmpty && !r.isEmpty && l != r then
    [⟨kind, path, "id differs: ".toList ++ l ++ " vs ".toList ++ r⟩]
  else []

def natText (n : ℕ) : Str := Nat.toDigits 10 n

def intText (n : ℤ) : Str := if n < 0 then '-' :: natText n.natAbs else natText n.natAbs

def diffChecks (path : Str) (l r : CanonicalCheck) : List DiffFinding :=
  (if l.passes != r.passes || l.fails != r.fails then
    [⟨.checkCountMismatch, path,
      "passes/fails differ: ".toList ++ natText l.passes ++ "/".toList ++ natText l.fails ++
        " vs ".toList ++ natText r.passes ++ "/".toList ++ natText r.fails⟩]
  else []) ++ diffIds .checkIdMismatch path l.id r.id

def diffMetricDefs (name : Str) (l r : CanonicalMetricDef) : List DiffFinding :=
  (if l.kind ≠ r.kind then
    [⟨.metricKindMismatch, name,
      "kind differs: ".toList ++ l.kind.asStr ++ " vs ".toList ++ r.kind.asStr⟩]
  else []) ++
    if l.contains ≠ r.contains then
      [⟨.metricContainsMismatch, name,
        "contains differs: ".toList ++ text.quoted l.contains ++ " vs ".toList ++
          text.quoted r.contains⟩]
    else []

variable [FloatParse F]

/-- A metric without samples on one side counts as zero there. -/
def diffSampleCounts (exp : Expectations F) (name : Str) (l r : Option ℕ) : List DiffFinding :=
  (checkTolerance text "sample_count".toList (ofNat (l.getD 0)) (ofNat (r.getD 0))
    (exp.toleranceFor name).count).toList.map fun detail => ⟨.sampleCountMismatch, name, detail⟩

def diffEventStreams (left right : CanonicalEventStream) (exp : Expectations F) :
    List DiffFinding :=
  diffUnion exp left.metricDefs right.metricDefs (fun name =>
    diffPresent ⟨.missingMetricDef, name, "Metric event present on only one side".toList⟩
      (diffMetricDefs text name)) ++
    diffUnion exp left.sampleCounts right.sampleCounts (diffSampleCounts text exp)

/-- The streams are compared when both sides have one. -/
def diffStreams (exp : Expectations F) :
    Option CanonicalEventStream → Option CanonicalEventStream → List DiffFinding
  | some l, some r => diffEventStreams text l r exp
  | _, _ => []

def diff (left right : CanonicalRun F) (exp : Expectations F) : List DiffFinding :=
  (if left.exitCode ≠ right.exitCode then
    [⟨.exitCode, "<run>".toList,
      "exit codes differ: ".toList ++ intText left.exitCode ++ " vs ".toList ++
        intText right.exitCode⟩]
  else []) ++
    diffUnion exp left.metrics right.metrics (fun sel =>
      diffPresent ⟨.missingMetric, sel, "present on only one side".toList⟩
        (diffMetricKinds text sel (exp.toleranceFor sel))) ++
    diffUnion exp left.checks right.checks (fun path =>
      diffPresent ⟨.missingCheck, path, "check present on only one side".toList⟩
        (diffChecks path)) ++
    diffStreams text exp left.eventStream right.eventStream ++
    diffUnion exp left.groups right.groups fun path =>
      diffPresent ⟨.missingGroup, path, "group present on only one side".toList⟩
        fun l r => diffIds .groupIdMismatch path l.id r.id

end

end K6Rs
