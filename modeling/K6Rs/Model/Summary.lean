import K6Rs.Model.Groups
import K6Rs.Model.Thresholds

/-! The data object of the end-of-test summary. It shows the rows of a snapshot, and for each tagged
metric that a threshold names a row that merges the tagged rows with at least its tags. -/

namespace K6Rs

open FloatOps MetricSelector

structure SummaryMetric (F : Type) where
  metricType : Str
  contains : Str
  values : SortedMap Str F

structure SummaryState (F : Type) where
  isStdOutTty : Bool
  testRunDurationMs : F

structure SummaryData (F : Type) where
  metrics : KeyMap Str (SummaryMetric F)
  rootGroup : SummaryGroup
  state : SummaryState F

section

variable {F H : Type} [FloatOps F]

/-- `http_req_duration{expected_response:true}`, which is shown whether a threshold names it or
not. -/
def autoIncluded : MetricSelector :=
  ⟨"http_req_duration".toList, SortedMap.ofList [("expected_response".toList, "true".toList)]⟩

/-- The tagged selectors among the keys of the thresholds, and the one that is always shown. -/
def thresholdSelectors (thresholds : Option (KeyMap Str (List Threshold))) : List MetricSelector :=
  (thresholds.elim [] fun t =>
    (t.entries.filterMap fun e => (parse e.1).toOption).filter fun s => !s.tags.isEmpty) ++
      [autoIncluded]

def includeTagged (thresholds : Option (KeyMap Str (List Threshold))) (name : Str) : Bool :=
  if !name.contains '{' then true
  else if thresholds.isNone then true
  else ((thresholdSelectors thresholds).map canonical).contains name

/-- The unit of a trend, by its name. -/
def trendContains (name : Str) : Str :=
  if "http_req".toList.isPrefixOf name || (Str.findText "duration".toList name).isSome then
    "time".toList
  else "default".toList

/-! ## Rows of the snapshot -/

namespace SummaryMetric

def ofCounter (value : UInt64) (rate : F) : SummaryMetric F where
  metricType := "counter".toList
  contains := "default".toList
  values := .ofList [("count".toList, ofNat value.toNat), ("rate".toList, rate)]

def ofGauge (value min max : F) : SummaryMetric F where
  metricType := "gauge".toList
  contains := "default".toList
  values := .ofList [("value".toList, value), ("min".toList, min), ("max".toList, max)]

def ofRate (rate : F) (passes total : ℕ) : SummaryMetric F where
  metricType := "rate".toList
  contains := "default".toList
  values := .ofList [("rate".toList, rate), ("passes".toList, ofNat passes),
    ("fails".toList, ofNat (total - passes))]

def ofTrend (name : Str) (stats : TrendStats F) : SummaryMetric F where
  metricType := "trend".toList
  contains := trendContains name
  values := .ofList [("avg".toList, stats.avg), ("min".toList, stats.min),
    ("med".toList, stats.med), ("max".toList, stats.max), ("p(90)".toList, stats.p90),
    ("p(95)".toList, stats.p95), ("p(99)".toList, stats.p99),
    ("count".toList, ofNat stats.count)]

end SummaryMetric

/-! ## Synthesized rows -/

def subsetMatches (target : MetricSelector) (stored : Str) : Bool :=
  match parse stored with
  | .error _ => false
  | .ok s => s.name == target.name && tagsMatch target.tags s.tags

/-- What the merge over the trend rows has accumulated so far. -/
structure SubsetTrend (F H : Type) where
  count : ℕ
  sum : F
  min : F
  max : F
  hist : Option H

namespace SubsetTrend

variable [Histogram F H]

def new : SubsetTrend F H := ⟨0, zero, maxValue, minValue, none⟩

def add (acc : SubsetTrend F H) (stats : TrendStats F) (hist : Option H) : SubsetTrend F H where
  count := acc.count + stats.count
  sum := FloatOps.add acc.sum (mul stats.avg (ofNat stats.count))
  min := if lt stats.min acc.min then stats.min else acc.min
  max := if lt acc.max stats.max then stats.max else acc.max
  hist := match hist, acc.hist with
    | none, h => h
    | some h, some m => some (Histogram.add F m h)
    | some h, none => some h

def quantile (acc : SubsetTrend F H) (q : ℚ) : F :=
  match acc.hist with
  | none => zero
  | some h =>
      if 0 < Histogram.len F h then
        div (ofNat (Histogram.valueAtQuantile h (ofRat q : F))) (ofRat 1000)
      else zero

def stats (acc : SubsetTrend F H) : TrendStats F where
  avg := if 0 < acc.count then div acc.sum (ofNat acc.count) else zero
  min := if FloatOps.eq acc.min maxValue then zero else acc.min
  med := acc.quantile (1 / 2)
  max := if FloatOps.eq acc.max minValue then zero else acc.max
  p90 := acc.quantile (9 / 10)
  p95 := acc.quantile (95 / 100)
  p99 := acc.quantile (99 / 100)
  count := acc.count

/-- The merge of the trend rows that match. -/
def merge (target : MetricSelector) (snapshot : MetricsSnapshot F H) : SubsetTrend F H :=
  (snapshot.trends.filter fun row => subsetMatches target row.1).foldl
    (fun acc row => acc.add row.2 (snapshot.trendHistograms.find? row.1)) new

end SubsetTrend

variable [Histogram F H]

/-- Trends come first, then counters and rates. -/
def synthesizeSubsetMetric (target : MetricSelector) (snapshot : MetricsSnapshot F H) :
    Option (SummaryMetric F) :=
  let counters := snapshot.counters.filter fun row => subsetMatches target row.1
  let rates := snapshot.rates.filter fun row => subsetMatches target row.1
  if snapshot.trends.any fun row => subsetMatches target row.1 then
    some (.ofTrend target.name (SubsetTrend.merge target snapshot).stats)
  else if !counters.isEmpty then
    some (.ofCounter (counters.map fun row => row.2.1).sum
      (counters.foldl (fun rate row => add rate row.2.2) zero))
  else if !rates.isEmpty then
    let passes := (rates.map fun row => row.2.2.1).sum
    let total := (rates.map fun row => row.2.2.2).sum
    some (.ofRate (if 0 < total then div (ofNat passes) (ofNat total) else zero) passes total)
  else none

/-! ## The data object -/

/-- The shown rows of one kind, each under its name. -/
def showRows {μ : Type} (shown : Str → Bool) (toMetric : Str → μ → SummaryMetric F)
    (rows : List (Str × μ)) (metrics : KeyMap Str (SummaryMetric F)) :
    KeyMap Str (SummaryMetric F) :=
  (rows.filter fun row => shown row.1).foldl
    (fun metrics row => metrics.upsert row.1 fun _ => toMetric row.1 row.2) metrics

/-- The rows of the snapshot that are shown. -/
def snapshotRows (snapshot : MetricsSnapshot F H)
    (thresholds : Option (KeyMap Str (List Threshold))) : KeyMap Str (SummaryMetric F) :=
  let shown := includeTagged thresholds
  let metrics := showRows shown (fun _ row => .ofCounter row.1 row.2) snapshot.counters ∅
  let metrics :=
    showRows shown (fun _ row => .ofGauge row.1 row.2.1 row.2.2) snapshot.gauges metrics
  let metrics := showRows shown (fun _ row => .ofRate row.1 row.2.1 row.2.2) snapshot.rates metrics
  showRows shown .ofTrend snapshot.trends metrics

/-- A synthesized row takes the place of a row with its canonical name. -/
def synthesizeRows (snapshot : MetricsSnapshot F H) (selectors : List MetricSelector)
    (metrics : KeyMap Str (SummaryMetric F)) : KeyMap Str (SummaryMetric F) :=
  selectors.foldl (fun metrics sel =>
    match synthesizeSubsetMetric sel snapshot with
    | some synth => metrics.upsert (canonical sel) fun _ => synth
    | none => metrics) metrics

def buildSummaryData (md5 : Str → Str) (isTerminal : Bool) (snapshot : MetricsSnapshot F H)
    (groupTree : GroupSnapshot F) (durationSecs : F)
    (thresholds : Option (KeyMap Str (List Threshold))) : SummaryData F where
  metrics := synthesizeRows snapshot (thresholdSelectors thresholds)
    (snapshotRows snapshot thresholds)
  rootGroup := convertGroup md5 groupTree
  state := ⟨isTerminal, mul durationSecs (ofRat 1000)⟩

end

/-- The selector that is always shown is what its text is read as. -/
example : parse "http_req_duration{expected_response:true}".toList = .ok autoIncluded := by
  decide +kernel

end K6Rs
