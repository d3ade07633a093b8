import K6Rs.Library.Json
import K6Rs.Library.SortedMap
import K6Rs.Model.EventStream

/-! The file of the event stream: the envelopes that the writer prints, one on a line, and the
reader of the conformance harness. -/

namespace K6Rs

/-- The parts of the language and its libraries that writer and reader call. -/
structure StreamFormat (F : Type) where
  /-- A value as a 64-bit float. -/
  toBits : F → UInt64
  formatRfc3339 : ℤ → Str
  /-- The text of a finite float. -/
  floatText : UInt64 → Str
  /-- `serde_json::from_str`, up to the typed reader. -/
  fromStr : Str → Option Json

/-- A float as a JSON value; what is not finite is `null`. -/
def serializeF64 (bits : UInt64) : Json :=
  if (bits >>> 52) &&& 0x7FF = 0x7FF then .null else .number (.float bits)

namespace StreamFormat

variable {n : ℕ} {F : Type} (format : StreamFormat F)

def metricEnvelope (d : MetricDef) : Json :=
  .object [
    ("type".toList, .string "Metric".toList),
    ("data".toList, .object [
      ("name".toList, .string d.name),
      ("type".toList, .string d.kind.asStr),
      ("contains".toList, .string d.contains),
      ("thresholds".toList, .array []),
      ("submetrics".toList, .null)]),
    ("metric".toList, .string d.name)]

def pointEnvelope (ev : SinkEvent F) : Json :=
  .object [
    ("metric".toList, .string ev.metricName),
    ("type".toList, .string "Point".toList),
    ("data".toList, .object [
      ("time".toList, .string (format.formatRfc3339 ev.time)),
      ("value".toList, serializeF64 (format.toBits ev.value)),
      ("tags".toList, .object (ev.tags.entries.map fun (k, v) => (k, .string v)))])]

def envelope : StreamLine n F → Json
  | .metric d => metricEnvelope d
  | .point x => format.pointEnvelope x.content

/-- The file that the writer leaves. -/
def file (output : List (StreamLine n F)) : Str :=
  output.flatMap fun line => JsonText.value format.floatText (format.envelope line) ++ ['\n']

end StreamFormat

/-! ## The reader -/

inductive CanonicalMetricKindTag where
  | counter
  | gauge
  | rate
  | trend
  deriving DecidableEq

def CanonicalMetricKindTag.parse (s : Str) : Option CanonicalMetricKindTag :=
  if s = "counter".toList then some .counter
  else if s = "gauge".toList then some .gauge
  else if s = "rate".toList then some .rate
  else if s = "trend".toList then some .trend
  else none

structure CanonicalMetricDef where
  name : Str
  kind : CanonicalMetricKindTag
  contains : Str

structure CanonicalEventStream where
  metricDefs : SortedMap Str CanonicalMetricDef
  sampleCounts : SortedMap Str ℕ

structure WireMetricData where
  metricType : Str
  contains : Option Str

structure WireEvent where
  eventType : Str
  metric : Str
  data : Option WireMetricData

/-- A field that is an option: `null` is the same as no field. -/
def optionalField {α : Type} (read : Json → Option α) : Option Json → Option (Option α)
  | none => some none
  | some .null => some none
  | some v => (read v).map some

def WireMetricData.ofJson (v : Json) : Option WireMetricData := do
  let fields := ["type".toList, "contains".toList]
  let metricType ← v.structField fields "type".toList
  let contains ← v.structField fields "contains".toList
  return {
    metricType := ← match metricType with
      | none => some []
      | some x => x.asStr
    contains := ← optionalField Json.asStr contains }

def WireEvent.ofJson (v : Json) : Option WireEvent := do
  let fields := ["type".toList, "metric".toList, "data".toList]
  let eventType ← v.structField fields "type".toList
  let metric ← v.structField fields "metric".toList
  let data ← v.structField fields "data".toList
  return {
    eventType := ← eventType.bind Json.asStr
    metric := ← metric.bind Json.asStr
    data := ← optionalField WireMetricData.ofJson data }

namespace CanonicalEventStream

def add (stream : CanonicalEventStream) (ev : WireEvent) : CanonicalEventStream :=
  if ev.eventType = "Metric".toList then
    match ev.data with
    | none => stream
    | some data =>
        match CanonicalMetricKindTag.parse data.metricType with
        | none => stream
        | some kind =>
            if stream.metricDefs.contains ev.metric then stream
            else
              { stream with
                metricDefs := stream.metricDefs.insert ev.metric
                  ⟨ev.metric, kind, data.contains.getD []⟩ }
  else if ev.eventType = "Point".toList then
    { stream with
      sampleCounts := stream.sampleCounts.insert ev.metric
        ((stream.sampleCounts.find? ev.metric).getD 0 + 1) }
  else stream

/-- A line that is empty or cannot be parsed is skipped. -/
def readLine {F : Type} (format : StreamFormat F) (stream : CanonicalEventStream) (line : Str) :
    CanonicalEventStream :=
  let line := Str.trim line
  if line.isEmpty then stream
  else
    match (format.fromStr line).bind WireEvent.ofJson with
    | none => stream
    | some ev => stream.add ev

end CanonicalEventStream

def readEventStream {F : Type} (format : StreamFormat F) (raw : Str) : CanonicalEventStream :=
  (Str.lines raw).foldl (CanonicalEventStream.readLine format) ⟨∅, ∅⟩

end K6Rs
