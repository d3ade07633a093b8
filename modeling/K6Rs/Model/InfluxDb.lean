import K6Rs.Library.Escape
import K6Rs.Model.Samples

/-! The InfluxDB output: each sample of a snapshot becomes a record of the line protocol. -/

namespace K6Rs

open Escape (replace)

namespace InfluxDb

def escapeMeasurement (value : Str) : Str :=
  replace ' ' "\\ ".toList (replace ',' "\\,".toList (replace '\\' "\\\\".toList value))

def escapeTagOrFieldKey (value : Str) : Str :=
  replace '=' "\\=".toList
    (replace ' ' "\\ ".toList (replace ',' "\\,".toList (replace '\\' "\\\\".toList value)))

def escapeTagValue (value : Str) : Str := escapeTagOrFieldKey value

def tagsText (tags : List (Str × Str)) : Str :=
  tags.flatMap fun tag => ',' :: (escapeTagOrFieldKey tag.1 ++ '=' :: escapeTagValue tag.2)

def fieldText (key : String) (value : Str) : Str := escapeTagOrFieldKey key.toList ++ '=' :: value

def fieldsText : MetricValue → Str
  | .counter count rate =>
      fieldText "count" (natText count ++ ['i']) ++ ',' :: fieldText "rate" rate.display
  | .gauge value min max =>
      fieldText "value" value.display ++ ',' ::
        (fieldText "min" min.display ++ ',' :: fieldText "max" max.display)
  | .rate rate passes total =>
      fieldText "rate" rate.display ++ ',' :: (fieldText "passes" (natText passes ++ ['i']) ++
        ',' :: fieldText "total" (natText total ++ ['i']))
  | .trend avg min med max p90 p95 count =>
      fieldText "avg" avg.display ++ ',' :: (fieldText "min" min.display ++
        ',' :: (fieldText "med" med.display ++ ',' :: (fieldText "max" max.display ++
          ',' :: (fieldText "p90" p90.display ++ ',' :: (fieldText "p95" p95.display ++
            ',' :: fieldText "count" (natText count ++ ['i']))))))

/-- The record that is pushed for a sample. -/
def recordText (order : HashOrder Str Str) (timestampNs : ℕ) (sample : MetricSample) : Str :=
  escapeMeasurement sample.metric ++ tagsText (order.iter sample.tags) ++
    ' ' :: (fieldsText sample.value ++ ' ' :: natText timestampNs)

/-- `add_snapshot` with the samples of the snapshot. -/
def addSnapshot (order : HashOrder Str Str) (samples : List (MetricSample)) (elapsedSecs : Double)
    (buffer : List Str) : List Str :=
  let timestampNs := FloatOps.toU64 (FloatOps.mul elapsedSecs (FloatOps.ofRat 1000000000))
  buffer ++ samples.map (recordText order timestampNs)

def toLineProtocol (measurement : Str) (tags : List (Str × Str)) (fields : List (Str × Double))
    (timestampNs : ℕ) :
    Str :=
  escapeMeasurement measurement ++ tagsText tags ++
    ' ' ::
      ([','].intercalate (fields.map fun field =>
        escapeTagOrFieldKey field.1 ++ '=' :: field.2.display) ++
      ' ' :: natText timestampNs)

end InfluxDb

end K6Rs
