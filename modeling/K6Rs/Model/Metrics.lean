import K6Rs.Library.FloatOps
import K6Rs.Library.KeyMap
import K6Rs.Model.Selector
import Mathlib.Data.UInt

/-! The metrics registry: one storage cell for each full tag set of a metric, the
live subset reads over the cells, and the snapshot that thresholds and the summary
are computed from. Floats and histograms are parameters. -/

namespace K6Rs

open FloatOps MetricSelector

/-! ## Cells -/

/-- The histogram operations a trend uses. Recording a value out of range and
adding histograms of different bounds leave a histogram unchanged. -/
class Histogram (F H : Type) where
  new : H
  record : H → ℕ → H
  add : H → H → H
  len : H → ℕ
  valueAtQuantile : H → F → ℕ

/-- A histogram that keeps every value, with the nearest rank as its quantile. -/
instance : Histogram ℚ (List ℕ) where
  new := []
  record h v := h ++ [v]
  add h other := h ++ other
  len h := h.length
  valueAtQuantile h q :=
    (h.insertionSort (· ≤ ·)).getD (max ⌈q * h.length⌉₊ 1 - 1) 0

structure CounterMetric where
  value : UInt64
  deriving DecidableEq

structure GaugeMetric (F : Type) where
  value : F
  min : F
  max : F

/-- Events are counted one by one, so that 2^64 of them are out of reach. -/
structure RateMetric where
  passes : ℕ
  total : ℕ
  deriving DecidableEq

/-- A trend without samples has sum zero. Its samples are counted one by one, as those of a rate. -/
structure TrendMetric (F H : Type) [FloatOps F] where
  histogram : H
  count : ℕ
  sum : F
  min : F
  max : F
  sum_of_count_eq_zero : count = 0 → sum = zero

structure TrendStats (F : Type) where
  avg : F
  min : F
  med : F
  max : F
  p90 : F
  p95 : F
  p99 : F
  count : ℕ

namespace CounterMetric

def new : CounterMetric := ⟨0⟩

def merge (m other : CounterMetric) : CounterMetric := ⟨m.value + other.value⟩

end CounterMetric

namespace RateMetric

def new : RateMetric := ⟨0, 0⟩

def add (m : RateMetric) (passed : Bool) : RateMetric :=
  ⟨if passed then m.passes + 1 else m.passes, m.total + 1⟩

def merge (m other : RateMetric) : RateMetric :=
  ⟨m.passes + other.passes, m.total + other.total⟩

end RateMetric

section

variable {F H : Type} [FloatOps F]

/-- The gauge after `value` is set. Its extrema are compared by their bit patterns, and those of a
new gauge give way to every value. -/
def GaugeMetric.set [FloatBits F] (g : Option (GaugeMetric F)) (value : F) : GaugeMetric F :=
  match g with
  | none => ⟨value, value, value⟩
  | some g =>
      { value
        min := if FloatBits.bitsLt value g.min then value else g.min
        max := if FloatBits.bitsLt g.max value then value else g.max }

def TrendStats.default : TrendStats F :=
  ⟨zero, zero, zero, zero, zero, zero, zero, 0⟩

namespace TrendMetric

variable [Histogram F H]

def new : TrendMetric F H where
  histogram := Histogram.new F
  count := 0
  sum := zero
  min := maxValue
  max := minValue
  sum_of_count_eq_zero _ := rfl

def record (t : TrendMetric F H) (valueMs : F) : TrendMetric F H :=
  let micros := toU64 (mul valueMs (ofRat 1000))
  { histogram := if 1 ≤ micros then Histogram.record F t.histogram micros else t.histogram
    count := t.count + 1
    sum := add t.sum valueMs
    min := if lt valueMs t.min then valueMs else t.min
    max := if lt t.max valueMs then valueMs else t.max
    sum_of_count_eq_zero h := (Nat.succ_ne_zero _ h).elim }

/-- The percentile at `q`; a histogram without samples answers zero. -/
def quantile (t : TrendMetric F H) (q : F) : F :=
  if Histogram.len F t.histogram = 0 then zero
  else div (ofNat (Histogram.valueAtQuantile t.histogram q)) (ofRat 1000)

def stats (t : TrendMetric F H) : TrendStats F :=
  if t.count = 0 then .default
  else
    { avg := div t.sum (ofNat t.count)
      min := t.min
      med := t.quantile (ofRat (1 / 2))
      max := t.max
      p90 := t.quantile (ofRat (9 / 10))
      p95 := t.quantile (ofRat (95 / 100))
      p99 := t.quantile (ofRat (99 / 100))
      count := t.count }

def merge (t other : TrendMetric F H) : TrendMetric F H :=
  if h : other.count = 0 then t
  else
    { histogram := Histogram.add F t.histogram other.histogram
      count := t.count + other.count
      sum := add t.sum other.sum
      min := if lt other.min t.min then other.min else t.min
      max := if lt t.max other.max then other.max else t.max
      sum_of_count_eq_zero := fun h0 => (h (Nat.eq_zero_of_add_eq_zero h0).2).elim }

end TrendMetric

end

/-! ## Subset queries -/

def parseQuery (raw : Str) : Option MetricSelector := (parse raw).toOption

/-- Every tag the query asks for is a tag of the stored selector. -/
def tagsMatch (query stored : TagMap) : Bool :=
  query.entries.all fun a => stored.find? a.1 == some a.2

def storedMatchesQuery (stored : Str) (query : Option MetricSelector) (rawQuery : Str) :
    Bool :=
  match query with
  | none => stored == rawQuery
  | some q =>
      match parse stored with
      | .error _ => stored == rawQuery
      | .ok s => s.name == q.name && tagsMatch q.tags s.tags

/-! ## The registry -/

structure MetricsRegistry (F H : Type) [FloatOps F] where
  counters : KeyMap Str CounterMetric
  gauges : KeyMap Str (GaugeMetric F)
  rates : KeyMap Str RateMetric
  trends : KeyMap Str (TrendMetric F H)

namespace MetricsRegistry

variable {F H : Type} [FloatOps F]

def new : MetricsRegistry F H := ⟨∅, ∅, ∅, ∅⟩

/-! ### Writes -/

def counterAdd (reg : MetricsRegistry F H) (name : Str) (value : UInt64) :
    MetricsRegistry F H :=
  { reg with
    counters := reg.counters.upsert name fun c => ⟨(c.getD .new).value + value⟩ }

def counterAddWithTags (reg : MetricsRegistry F H) (name : Str) (value : UInt64)
    (tags : TagMap) : MetricsRegistry F H :=
  reg.counterAdd (canonical ⟨name, tags⟩) value

def counterAddTagged (reg : MetricsRegistry F H) (name : Str) (value : UInt64)
    (tags : List (Str × Str)) : MetricsRegistry F H :=
  reg.counterAdd (canonicalKey name (canonicalTagSuffix tags)) value

def gaugeSet [FloatBits F] (reg : MetricsRegistry F H) (name : Str) (value : F) :
    MetricsRegistry F H :=
  { reg with gauges := reg.gauges.upsert name fun g => GaugeMetric.set g value }

def rateAdd (reg : MetricsRegistry F H) (name : Str) (passed : Bool) :
    MetricsRegistry F H :=
  { reg with rates := reg.rates.upsert name fun r => (r.getD .new).add passed }

def rateAddWithTags (reg : MetricsRegistry F H) (name : Str) (passed : Bool)
    (tags : TagMap) : MetricsRegistry F H :=
  reg.rateAdd (canonical ⟨name, tags⟩) passed

def rateAddTagged (reg : MetricsRegistry F H) (name : Str) (passed : Bool)
    (tags : List (Str × Str)) : MetricsRegistry F H :=
  reg.rateAdd (canonicalKey name (canonicalTagSuffix tags)) passed

section Trends

variable [Histogram F H]

def trendAdd (reg : MetricsRegistry F H) (name : Str) (valueMs : F) :
    MetricsRegistry F H :=
  { reg with trends := reg.trends.upsert name fun t => (t.getD .new).record valueMs }

def trendAddWithTags (reg : MetricsRegistry F H) (name : Str) (valueMs : F)
    (tags : TagMap) : MetricsRegistry F H :=
  reg.trendAdd (canonical ⟨name, tags⟩) valueMs

def trendAddTagged (reg : MetricsRegistry F H) (name : Str) (valueMs : F)
    (tags : List (Str × Str)) : MetricsRegistry F H :=
  reg.trendAdd (canonicalKey name (canonicalTagSuffix tags)) valueMs

end Trends

/-! ### Live reads -/

def counterGet (reg : MetricsRegistry F H) (name : Str) : UInt64 :=
  ((reg.counters.entries.filter fun e =>
    storedMatchesQuery e.1 (parseQuery name) name).map fun e => e.2.value).sum

/-- The rate, its passes and its total. -/
def rateGet (reg : MetricsRegistry F H) (name : Str) : F × ℕ × ℕ :=
  let (passes, total) := reg.rates.entries.foldl (fun (acc : ℕ × ℕ) e =>
    if storedMatchesQuery e.1 (parseQuery name) name then
      (acc.1 + e.2.passes, acc.2 + e.2.total)
    else acc) (0, 0)
  (if 0 < total then div (ofNat passes) (ofNat total) else zero, passes, total)

/-- Merge one more trend into the trends merged so far. -/
def mergeInto [Histogram F H] (merged : Option (TrendMetric F H)) (t : TrendMetric F H) :
    Option (TrendMetric F H) :=
  match merged with
  | some m => some (m.merge t)
  | none => some t

def trendStats [Histogram F H] (reg : MetricsRegistry F H) (name : Str) :
    Option (TrendStats F) :=
  (reg.trends.entries.foldl (fun merged e =>
    if storedMatchesQuery e.1 (parseQuery name) name then mergeInto merged e.2
    else merged) none).map TrendMetric.stats

end MetricsRegistry

/-! ## Snapshot -/

structure MetricsSnapshot (F H : Type) where
  counters : List (Str × UInt64 × F)
  gauges : List (Str × F × F × F)
  rates : List (Str × F × ℕ × ℕ)
  trends : List (Str × TrendStats F)
  trendHistograms : KeyMap Str H

/-- The rows a stored cell contributes to: its own canonical key and, when it is
tagged, the bare metric name. -/
def deriveTargets (storedKey : Str) : List Str :=
  match parse storedKey with
  | .error _ => [storedKey]
  | .ok sel => canonical sel :: if sel.tags.isEmpty then [] else [sel.name]

/-- One row for each target, the cells of a target merged. -/
def deriveRows {ν : Type} (merge : ν → ν → ν) (stored : KeyMap Str ν) : KeyMap Str ν :=
  stored.entries.foldl (fun out e =>
    (deriveTargets e.1).foldl (fun out target =>
      out.upsert target fun m => m.elim e.2 fun m => merge m e.2) out) ∅

def deriveCounters (stored : KeyMap Str CounterMetric) : KeyMap Str CounterMetric :=
  deriveRows CounterMetric.merge stored

def deriveTrends {F H : Type} [FloatOps F] [Histogram F H]
    (stored : KeyMap Str (TrendMetric F H)) : KeyMap Str (TrendMetric F H) :=
  deriveRows TrendMetric.merge stored

def deriveRates (stored : KeyMap Str RateMetric) : KeyMap Str RateMetric :=
  deriveRows RateMetric.merge stored

namespace MetricsRegistry

variable {F H : Type} [FloatOps F] [Histogram F H]

def snapshot (reg : MetricsRegistry F H) (durationSecs : F) : MetricsSnapshot F H where
  counters := SortedMap.sortByKey ((deriveCounters reg.counters).entries.map fun e =>
    (e.1, e.2.value,
      if lt zero durationSecs then div (ofNat e.2.value.toNat) durationSecs else zero))
  gauges := SortedMap.sortByKey (reg.gauges.entries.map fun e =>
    (e.1, e.2.value, e.2.min, e.2.max))
  rates := SortedMap.sortByKey ((deriveRates reg.rates).entries.map fun e =>
    (e.1, if 0 < e.2.total then div (ofNat e.2.passes) (ofNat e.2.total) else zero,
      e.2.passes, e.2.total))
  trends := SortedMap.sortByKey ((deriveTrends reg.trends).entries.map fun e =>
    (e.1, e.2.stats))
  trendHistograms :=
    ⟨(deriveTrends reg.trends).entries.map fun e => (e.1, e.2.histogram), by
      simpa [Function.comp_def] using (deriveTrends reg.trends).nodup⟩

end MetricsRegistry

end K6Rs
