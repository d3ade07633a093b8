import K6Rs.Library.Decimal
import K6Rs.Model.Env
import K6Rs.Model.RunDiff

/-! The samples that the outputs of a snapshot write. -/

namespace K6Rs

inductive MetricType where
  | counter
  | gauge
  | rate
  | trend

/-- The `Debug` text. -/
def MetricType.debug : MetricType → Str
  | .counter => "Counter".toList
  | .gauge => "Gauge".toList
  | .rate => "Rate".toList
  | .trend => "Trend".toList

inductive MetricValue where
  | counter (count : ℕ) (rate : Double)
  | gauge (value min max : Double)
  | rate (rate : Double) (passes total : ℕ)
  | trend (avg min med max p90 p95 : Double) (count : ℕ)

structure MetricSample where
  metric : Str
  metricType : MetricType
  timestamp : Double
  value : MetricValue
  tags : KeyMap Str Str

/-- The tags of a row, in the order in which they are visited. -/
def tagsColumn (order : HashOrder Str Str) (tags : KeyMap Str Str) : Str :=
  [';'].intercalate ((order.iter tags).map fun tag => tag.1 ++ '=' :: tag.2)

end K6Rs
