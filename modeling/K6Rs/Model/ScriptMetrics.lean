import K6Rs.Model.EventStream
import K6Rs.Model.Metrics

/-! The metric objects of a script. An `add` is given a number and the tags of the sample; no object
passes the tags on. -/

namespace K6Rs

open FloatOps

section

variable {F H : Type} [FloatOps F]

/-- What JavaScript takes for false: zero, or no number. -/
def falsy (value : F) : Bool := eq value zero || !eq value value

/-! ## Host functions -/

def metricsTrendAdd [Histogram F H] (reg : MetricsRegistry F H) (name : Str) (value : F) :
    MetricsRegistry F H := reg.trendAdd name value

/-- The cast cuts off the fraction. -/
def metricsCounterAdd (reg : MetricsRegistry F H) (name : Str) (value : F) : MetricsRegistry F H :=
  reg.counterAdd name (UInt64.ofNat (toU64 value))

def metricsRateAdd (reg : MetricsRegistry F H) (name : Str) (value : Bool) : MetricsRegistry F H :=
  reg.rateAdd name value

/-! ## Metric objects -/

def Trend.add [Histogram F H] (reg : MetricsRegistry F H) (name : Str) (value : F)
    (_tags : TagMap) :
    MetricsRegistry F H := metricsTrendAdd reg name value

/-- `Number(value || 1)` -/
def Counter.add (reg : MetricsRegistry F H) (name : Str) (value : F) (_tags : TagMap) :
    MetricsRegistry F H := metricsCounterAdd reg name (if falsy value then ofNat 1 else value)

def Rate.add (reg : MetricsRegistry F H) (name : Str) (value : F) (_tags : TagMap) :
    MetricsRegistry F H := metricsRateAdd reg name (!falsy value)

inductive ScriptMetric where
  | counter
  | rate
  | trend
  deriving DecidableEq

/-- A call of `add` on the metric object of a name. -/
structure AddCall (F : Type) where
  kind : ScriptMetric
  name : Str
  value : F
  tags : TagMap

def AddCall.run [Histogram F H] (reg : MetricsRegistry F H) (call : AddCall F) :
    MetricsRegistry F H :=
  match call.kind with
  | .counter => Counter.add reg call.name call.value call.tags
  | .rate => Rate.add reg call.name call.value call.tags
  | .trend => Trend.add reg call.name call.value call.tags

/-- The registry after a sequence of calls. -/
def runAdds [Histogram F H] (calls : List (AddCall F)) : MetricsRegistry F H :=
  calls.foldl AddCall.run .new

end

end K6Rs
