import K6Rs.Library.Escape
import K6Rs.Model.Samples

/-! The rows of the CSV and of the DuckDB output. -/

namespace K6Rs

def csvField (value : Str) : Str :=
  if value.any fun c => c = ',' ∨ c = '"' ∨ c = '\n' ∨ c = '\r' then
    '"' :: (Escape.replace '"' "\"\"".toList value ++ ['"'])
  else value

namespace CsvOutput

def header : Str := "metric_name,timestamp,metric_type,metric_value,tags".toList

def valueText : MetricValue → Str
  | .counter count rate => natText count ++ ',' :: rate.fixed 6
  | .gauge value min max => value.display ++ ',' :: (min.display ++ ',' :: max.display)
  | .rate rate passes total => rate.fixed 6 ++ ',' :: (natText passes ++ ',' :: natText total)
  | .trend avg min med max p90 p95 count =>
      avg.fixed 2 ++ ',' :: (min.fixed 2 ++ ',' :: (med.fixed 2 ++ ',' :: (max.fixed 2 ++
        ',' :: (p90.fixed 2 ++ ',' :: (p95.fixed 2 ++ ',' :: natText count)))))

/-- The row of a sample, without the end of its line. -/
def rowText (order : HashOrder Str Str) (sample : MetricSample) : Str :=
  csvField sample.metric ++ ',' :: (sample.timestamp.fixed 3 ++ ',' :: (sample.metricType.debug ++
    ',' :: (csvField (valueText sample.value) ++ ',' :: csvField (tagsColumn order sample.tags))))

end CsvOutput

namespace DuckDb

/-- The columns of a value: average, minimum, median, maximum, the two percentiles, count and
rate. -/
def valueColumns : MetricValue → (Double × Double × Double × Double × Double × Double) × ℕ ×
    Double :=
  let zero : Double := FloatOps.ofRat 0
  fun
  | .counter count rate => ((zero, zero, zero, zero, zero, zero), count, rate)
  | .gauge value min max => ((value, min, zero, max, zero, zero), 0, zero)
  | .rate rate _ total => ((zero, zero, zero, zero, zero, zero), total, rate)
  | .trend avg min med max p90 p95 count => ((avg, min, med, max, p90, p95), count, zero)

def rowText (order : HashOrder Str Str) (sample : MetricSample) : Str :=
  let ((avg, min, med, max, p90, p95), count, rate) := valueColumns sample.value
  csvField sample.metric ++ ',' :: (sample.metricType.debug ++ ',' :: (sample.timestamp.fixed 3 ++
    ',' :: (avg.fixed 3 ++ ',' :: (min.fixed 3 ++ ',' :: (med.fixed 3 ++ ',' :: (max.fixed 3 ++
      ',' :: (p90.fixed 3 ++ ',' :: (p95.fixed 3 ++ ',' :: (natText count ++ ',' :: (rate.fixed 6 ++
        ',' :: csvField (tagsColumn order sample.tags)))))))))))

end DuckDb

end K6Rs
