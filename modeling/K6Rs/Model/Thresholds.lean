import K6Rs.Library.FloatLit
import K6Rs.Model.Metrics

/-! The threshold engine: parsing of threshold expressions, resolution of a metric
against a snapshot, and the timers that decide when a failing threshold aborts the
run. Instants and durations are in nanoseconds. -/

namespace K6Rs

open FloatOps MetricSelector

/-- The value of a float literal. -/
class FloatParse (F : Type) where
  ofLit : FloatLit → F

/-- The exact value of a literal; a rational is finite, so the words have none. -/
instance : FloatParse ℚ where
  ofLit
    | .nan => 0
    | .inf neg => if neg then -maxDouble else maxDouble
    | .dec neg mantissa exp => (if neg then -1 else 1) * mantissa * 10 ^ exp

structure Threshold where
  expression : Str
  abortOnFail : Bool
  delayAbortEval : ℕ
  deriving DecidableEq

structure ThresholdState where
  lastFailed : Bool
  failingSince : Option ℕ
  deriving DecidableEq

def ThresholdState.default : ThresholdState := ⟨false, none⟩

inductive TickDecision where
  | continue
  | abort
  deriving DecidableEq

structure ThresholdResult (F : Type) where
  metric : Str
  expression : Str
  passed : Bool
  actualValue : F

inductive ThresholdStat (F : Type) where
  | count
  | rate
  | avg
  | min
  | max
  | med
  | percentile (p : F)
  | value

inductive ThresholdOp where
  | lt
  | lte
  | gt
  | gte
  | eq
  | neq
  deriving DecidableEq

structure ThresholdCondition (F : Type) where
  stat : ThresholdStat F
  op : ThresholdOp
  value : F

section

variable {F H : Type} [FloatOps F]

/-! ## Parsing -/

/-- The operator patterns, in the order in which they are searched. -/
def opPatterns : List (Str × ThresholdOp) :=
  [("===".toList, .eq), ("<=".toList, .lte), (">=".toList, .gte), ("!=".toList, .neq),
    ("==".toList, .eq), ("<".toList, .lt), (">".toList, .gt)]

def parseOpWith (expr : Str) : List (Str × ThresholdOp) → Option (Str × ThresholdOp × Str)
  | [] => none
  | (pattern, op) :: rest =>
      match Str.findText pattern expr with
      | some pos => some (expr.take pos, op, expr.drop (pos + pattern.length))
      | none => parseOpWith expr rest

def parseOp (expr : Str) : Option (Str × ThresholdOp × Str) := parseOpWith expr opPatterns

/-- `str::parse::<f64>`. -/
def parseFloat [FloatParse F] (s : Str) : Option F :=
  (FloatLit.parse s).map FloatParse.ofLit

def parseStat [FloatParse F] (s : Str) : Option (ThresholdStat F) :=
  let s := Str.trim s
  if s = "avg".toList then some .avg
  else if s = "min".toList then some .min
  else if s = "max".toList then some .max
  else if s = "med".toList then some .med
  else if s = "count".toList then some .count
  else if s = "rate".toList then some .rate
  else if s = "value".toList then some .value
  else if "p(".toList.isPrefixOf s && [')'].isSuffixOf s then
    (parseFloat (Str.slice s 2 (s.length - 1))).map .percentile
  else none

def parseCondition [FloatParse F] (expr : Str) : Option (ThresholdCondition F) :=
  match parseOp (Str.trim expr) with
  | none => none
  | some (statStr, op, valueStr) =>
      match parseStat (Str.trim statStr) with
      | none => none
      | some stat => (parseFloat (Str.trim valueStr)).map fun value => ⟨stat, op, value⟩

/-! ### At the bytes of the text

The same functions with the positions and slices of the source, which count bytes. A slice
that begins or ends within a character, or ends before it begins, panics and gives `none`. -/

def parseOpBytesWith (expr : Str) :
    List (Str × ThresholdOp) → Option (Option (Str × ThresholdOp × Str))
  | [] => some none
  | (pattern, op) :: rest =>
      match Str.findTextByte pattern expr with
      | some pos => do
          let left ← Str.byteSlice expr 0 pos
          let right ← Str.byteSlice expr (pos + Str.utf8Len pattern) (Str.utf8Len expr)
          return some (left, op, right)
      | none => parseOpBytesWith expr rest

def parseOpBytes (expr : Str) : Option (Option (Str × ThresholdOp × Str)) :=
  parseOpBytesWith expr opPatterns

def parseStatBytes [FloatParse F] (s : Str) : Option (Option (ThresholdStat F)) :=
  let s := Str.trim s
  if s = "avg".toList then some (some .avg)
  else if s = "min".toList then some (some .min)
  else if s = "max".toList then some (some .max)
  else if s = "med".toList then some (some .med)
  else if s = "count".toList then some (some .count)
  else if s = "rate".toList then some (some .rate)
  else if s = "value".toList then some (some .value)
  else if "p(".toList.isPrefixOf s && [')'].isSuffixOf s then do
    let inner ← Str.byteSlice s 2 (Str.utf8Len s - 1)
    return (parseFloat inner).map .percentile
  else some none

def parseConditionBytes [FloatParse F] (expr : Str) : Option (Option (ThresholdCondition F)) := do
  match ← parseOpBytes (Str.trim expr) with
  | none => return none
  | some (statStr, op, valueStr) =>
      match ← parseStatBytes (Str.trim statStr) with
      | none => return none
      | some stat => return (parseFloat (Str.trim valueStr)).map fun value => ⟨stat, op, value⟩

/-! ## Resolution against a snapshot -/

def metricNamesMatch (thresholdKey stored : Str) : Bool :=
  thresholdKey == stored ||
    match parse thresholdKey, parse stored with
    | .ok a, .ok b => canonical a == canonical b
    | _, _ => false

def storedIsSubsetMatch (thresholdKey stored : Str) : Bool :=
  match parse thresholdKey, parse stored with
  | .ok q, .ok s => s.name == q.name && tagsMatch q.tags s.tags
  | _, _ => false

structure MergedTrend (F H : Type) where
  count : ℕ
  avg : F
  min : F
  max : F
  histogram : Option H
  fallbackMed : F
  fallbackP90 : F
  fallbackP95 : F
  fallbackP99 : F

/-- What the merge over the trend rows has accumulated so far. -/
structure TrendAcc (F H : Type) where
  count : ℕ
  sum : F
  min : F
  max : F
  hist : Option H
  fallback : Option (TrendStats F)

def TrendAcc.new : TrendAcc F H := ⟨0, zero, maxValue, minValue, none, none⟩

def TrendAcc.add [Histogram F H] (acc : TrendAcc F H) (stats : TrendStats F)
    (hist : Option H) : TrendAcc F H where
  count := acc.count + stats.count
  sum := FloatOps.add acc.sum (mul stats.avg (ofNat stats.count))
  min := if lt stats.min acc.min then stats.min else acc.min
  max := if lt acc.max stats.max then stats.max else acc.max
  hist := match hist, acc.hist with
    | none, h => h
    | some h, some m => some (Histogram.add F m h)
    | some h, none => some h
  fallback := match acc.fallback with
    | none => some stats
    | some fb => some fb

def mergedTrendForThreshold [Histogram F H] (thresholdKey : Str)
    (snapshot : MetricsSnapshot F H) : Option (MergedTrend F H) :=
  let acc := snapshot.trends.foldl (fun acc row =>
    if storedIsSubsetMatch thresholdKey row.1 then
      acc.add row.2 (snapshot.trendHistograms.find? row.1)
    else acc) TrendAcc.new
  acc.fallback.map fun fb =>
    { count := acc.count
      avg := if 0 < acc.count then div acc.sum (ofNat acc.count) else zero
      min := if FloatOps.eq acc.min maxValue then zero else acc.min
      max := if FloatOps.eq acc.max minValue then zero else acc.max
      histogram := acc.hist
      fallbackMed := fb.med
      fallbackP90 := fb.p90
      fallbackP95 := fb.p95
      fallbackP99 := fb.p99 }

/-- The summed value and rate of the counter rows that match, if there are any. -/
def mergedCounterForThreshold (thresholdKey : Str) (snapshot : MetricsSnapshot F H) :
    Option (UInt64 × F) :=
  let (value, rate, had) := snapshot.counters.foldl
    (fun (acc : UInt64 × F × Bool) row =>
      if storedIsSubsetMatch thresholdKey row.1 then
        (acc.1 + row.2.1, FloatOps.add acc.2.1 row.2.2, true)
      else acc) (0, zero, false)
  if had then some (value, rate) else none

/-- The rate, passes and total of the rate rows that match, if there are any. -/
def mergedRateForThreshold (thresholdKey : Str) (snapshot : MetricsSnapshot F H) :
    Option (F × ℕ × ℕ) :=
  let (passes, total, had) := snapshot.rates.foldl
    (fun (acc : ℕ × ℕ × Bool) row =>
      if storedIsSubsetMatch thresholdKey row.1 then
        (acc.1 + row.2.2.1, acc.2.1 + row.2.2.2, true)
      else acc) (0, 0, false)
  if had then
    some (if 0 < total then div (ofNat passes) (ofNat total) else zero, passes, total)
  else none

/-- Whether `p` names the percentile `q`. -/
def isPercentile (p : F) (q : ℚ) : Bool := lt (FloatOps.abs (sub p (ofRat q))) (ofRat (1 / 2))

def MergedTrend.percentile [Histogram F H] (t : MergedTrend F H) (p : F) : F :=
  let fallback :=
    if isPercentile p 50 then t.fallbackMed
    else if isPercentile p 90 then t.fallbackP90
    else if isPercentile p 95 then t.fallbackP95
    else if isPercentile p 99 then t.fallbackP99
    else t.fallbackP95
  match t.histogram with
  | none => fallback
  | some h =>
      if 0 < Histogram.len F h then
        div (ofNat (Histogram.valueAtQuantile h
          (clamp (div p (ofRat 100)) zero (ofRat 1)))) (ofRat 1000)
      else fallback

def MergedTrend.resolve [Histogram F H] (t : MergedTrend F H) : ThresholdStat F → F
  | .avg => t.avg
  | .min => t.min
  | .max => t.max
  | .med => t.percentile (ofRat 50)
  | .percentile p => t.percentile p
  | .count => ofNat t.count
  | .value => t.avg
  | .rate => t.avg

def resolveCounter (value : UInt64) (rate : F) : ThresholdStat F → F
  | .count => ofNat value.toNat
  | .value => ofNat value.toNat
  | .rate => rate
  | _ => ofNat value.toNat

def resolveRate (rate : F) (total : ℕ) : ThresholdStat F → F
  | .rate => rate
  | .value => rate
  | .count => ofNat total
  | _ => rate

def snapshotPercentileMs [Histogram F H] (snapshot : MetricsSnapshot F H) (metric : Str)
    (percentile : F) : Option F :=
  (snapshot.trendHistograms.find? metric).map fun hist =>
    if Histogram.len F hist = 0 then zero
    else div (ofNat (Histogram.valueAtQuantile hist
      (clamp (div percentile (ofRat 100)) zero (ofRat 1)))) (ofRat 1000)

/-- The answer of the one trend row with the threshold's canonical name. -/
def resolveTrendRow [Histogram F H] (snapshot : MetricsSnapshot F H) (storedName : Str)
    (stats : TrendStats F) : ThresholdStat F → F
  | .avg => stats.avg
  | .min => stats.min
  | .max => stats.max
  | .med => stats.med
  | .percentile p =>
      match snapshotPercentileMs snapshot storedName p with
      | some v => v
      | none =>
          if isPercentile p 90 then stats.p90
          else if isPercentile p 95 then stats.p95
          else if isPercentile p 99 then stats.p99
          else stats.p95
  | .count => ofNat stats.count
  | .value => stats.avg
  | .rate => stats.avg

def resolveGauge (value min max : F) : ThresholdStat F → F
  | .min => min
  | .max => max
  | _ => value

/-- The rows looked up by canonical name, when no row matches as a superset. -/
def resolveByName [Histogram F H] (metric : Str) (stat : ThresholdStat F)
    (snapshot : MetricsSnapshot F H) : F :=
  match snapshot.trends.find? fun row => metricNamesMatch metric row.1 with
  | some (stored, stats) => resolveTrendRow snapshot stored stats stat
  | none =>
    match snapshot.counters.find? fun row => metricNamesMatch metric row.1 with
    | some (_, value, rate) => resolveCounter value rate stat
    | none =>
      match snapshot.rates.find? fun row => metricNamesMatch metric row.1 with
      | some (_, rate, _, total) => resolveRate rate total stat
      | none =>
        match snapshot.gauges.find? fun row => metricNamesMatch metric row.1 with
        | some (_, value, min, max) => resolveGauge value min max stat
        | none => zero

def resolveStat [Histogram F H] (metric : Str) (stat : ThresholdStat F)
    (snapshot : MetricsSnapshot F H) : F :=
  match mergedTrendForThreshold metric snapshot with
  | some synth => synth.resolve stat
  | none =>
    match mergedCounterForThreshold metric snapshot with
    | some (value, rate) => resolveCounter value rate stat
    | none =>
      match mergedRateForThreshold metric snapshot with
      | some (rate, _, total) => resolveRate rate total stat
      | none => resolveByName metric stat snapshot

def compare (actual : F) (op : ThresholdOp) (expected : F) : Bool :=
  match op with
  | .lt => lt actual expected
  | .lte => le actual expected
  | .gt => lt expected actual
  | .gte => le expected actual
  | .eq => lt (FloatOps.abs (sub actual expected)) epsilon
  | .neq => le epsilon (FloatOps.abs (sub actual expected))

def evaluateOne [FloatParse F] [Histogram F H] (metric expr : Str)
    (snapshot : MetricsSnapshot F H) : ThresholdResult F :=
  match parseCondition expr with
  | none => ⟨metric, expr, false, zero⟩
  | some parsed =>
      let actual := resolveStat metric parsed.stat snapshot
      ⟨metric, expr, compare actual parsed.op parsed.value, actual⟩

/-! ## The periodic evaluator -/

def stateKey (metric expression : Str) : Str := metric ++ ':' :: ':' :: expression

/-- The timer of one threshold after an evaluation at `now`. -/
def ThresholdState.tick (state : ThresholdState) (passed : Bool) (now : ℕ) :
    ThresholdState :=
  if passed then ⟨false, none⟩
  else ⟨true, some (state.failingSince.getD now)⟩

/-- The thresholds of a map in the order of its iteration, each with its metric. -/
def allThresholds (thresholds : KeyMap Str (List Threshold)) : List (Str × Threshold) :=
  thresholds.entries.flatMap fun e => e.2.map fun t => (e.1, t)

/-- Phase 1: every threshold updates its timer from the same snapshot. -/
def updateTimers [FloatParse F] [Histogram F H] (thresholds : List (Str × Threshold))
    (snapshot : MetricsSnapshot F H) (now : ℕ) (states : KeyMap Str ThresholdState) :
    KeyMap Str ThresholdState :=
  thresholds.foldl (fun states t =>
    states.upsert (stateKey t.1 t.2.expression) fun state =>
      (state.getD .default).tick (evaluateOne t.1 t.2.expression snapshot).passed now) states

/-- Phase 2: whether this threshold has been failing for its delay. -/
def crossedDelay (states : KeyMap Str ThresholdState) (now : ℕ) (t : Str × Threshold) :
    Bool :=
  if !t.2.abortOnFail then false
  else
    match states.find? (stateKey t.1 t.2.expression) with
    | none => false
    | some state =>
        match state.failingSince with
        | none => false
        | some failingSince => t.2.delayAbortEval ≤ now - failingSince

def updateStates [FloatParse F] [Histogram F H] (thresholds : KeyMap Str (List Threshold))
    (snapshot : MetricsSnapshot F H) (states : KeyMap Str ThresholdState) (now : ℕ) :
    TickDecision × KeyMap Str ThresholdState :=
  let states := updateTimers (allThresholds thresholds) snapshot now states
  let shouldAbort := (allThresholds thresholds).foldl (fun abort t =>
    if crossedDelay states now t then true else abort) false
  (if shouldAbort then .abort else .continue, states)

/-! ## One evaluation of all thresholds -/

/-- The results in the order of their metrics. -/
def evaluate [FloatParse F] [Histogram F H] (thresholds : KeyMap Str (List Threshold))
    (snapshot : MetricsSnapshot F H) : List (ThresholdResult F) :=
  ((allThresholds thresholds).map fun t => evaluateOne t.1 t.2.expression snapshot).insertionSort
    fun a b => a.metric ≤ b.metric

end

end K6Rs
