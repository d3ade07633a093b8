import K6Rs.Model.EventStream
import K6Rs.Model.Metrics

/-! What leaves the registry: the sample that is handed to the event sink, and the metric names that
the outputs take apart. Both cut a stored key at byte positions; a cut outside the text, or inside
of a character, panics and gives `none`. -/

namespace K6Rs

/-- The loop over the pairs of a tag block. -/
def collectPairs (body : Str) : TagMap :=
  (List.splitOn ',' body).foldl
    (fun tags pair =>
      match Str.splitOnce ':' pair with
      | (key, some value) => tags.insert key value
      | (_, none) => tags)
    ∅

def splitCanonicalForSink (canonical : Str) : Option (Str × TagMap) :=
  match Str.findByte '{' canonical with
  | none => some (canonical, ∅)
  | some braceIdx => do
      let name ← Str.byteSlice canonical 0 braceIdx
      let stop := Str.utf8Len canonical - 1
      if stop ≤ braceIdx + 1 then return (name, ∅)
      let body ← Str.byteSlice canonical (braceIdx + 1) stop
      return (name, collectPairs body)

/-- The event of a sample, when a sink is installed. -/
def emitToSink {F : Type} (kind : EventStream.MetricKind) (canonicalName : Str) (time : ℤ)
    (value : F) : Option (SinkEvent F) := do
  let (metricName, tags) ← splitCanonicalForSink canonicalName
  return ⟨metricName, kind, time, value, tags⟩

/-- A name that is no selector is split by hand. -/
def parseMetricName (name : Str) : Option (Str × TagMap) :=
  match MetricSelector.parse name with
  | .ok selector => some (selector.name, selector.tags)
  | .error _ =>
      match Str.findByte '{' name with
      | some braceStart => do
          let metric ← Str.byteSlice name 0 braceStart
          let tagStr ← Str.byteSlice name (braceStart + 1) (Str.utf8Len name - 1)
          return (metric, collectPairs tagStr)
      | none => some (name, ∅)

end K6Rs
