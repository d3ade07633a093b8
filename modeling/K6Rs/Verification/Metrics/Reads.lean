import K6Rs.Verification.Metrics.Gauges
import K6Rs.Verification.Summary.Submetric

/-! # What the queries find in the registry

A query is answered from the writes that it selects, in whatever order they were made. -/

namespace K6Rs

open FloatOps MetricSelector
open scoped UInt64.CommRing

/-! ## Sums over the writes -/

section Sums

variable {F H : Type} [FloatOps F] [Histogram F H]

theorem holdsWrites_recorded {α ν : Type} (new : ν) (record : ν → α → ν)
    {ws : List (MetricSelector × α)} (h : ∀ w ∈ ws, Readable w.1) :
    HoldsWrites (recorded new record ws) ws := by
  refine ⟨h, fun k => ?_⟩
  rw [recorded, KeyMap.mem_keys_foldl_upsert]
  simp

theorem counterGet_record {samples : List (Sample F)} (h : ∀ s ∈ samples, Readable s.selector)
    {q : Str} {query : MetricSelector} (hq : parse q = .ok query) :
    (.record samples : MetricsRegistry F H).counterGet q =
      sumOver (selects query) (fun v => v) (samples.filterMap Sample.counterWrite) := by
  refine total_live hq ?_ CounterMetric.value _ (MetricsRegistry.total_counters_record samples)
  rw [MetricsRegistry.counters_record]
  exact holdsWrites_recorded CounterMetric.new (fun c v => CounterMetric.mk (c.value + v))
    (readable_writes h counterWrite_writesOf)

theorem rateGet_record {samples : List (Sample F)} (h : ∀ s ∈ samples, Readable s.selector)
    {q : Str} {query : MetricSelector} (hq : parse q = .ok query) :
    (.record samples : MetricsRegistry F H).rateGet q = rateAnswer
      (sumOver (selects query) Bool.toNat (samples.filterMap Sample.rateWrite))
      (sumOver (selects query) (fun _ => 1) (samples.filterMap Sample.rateWrite)) := by
  have hholds : HoldsWrites (.record samples : MetricsRegistry F H).rates
      (samples.filterMap Sample.rateWrite) := by
    rw [MetricsRegistry.rates_record]
    exact holdsWrites_recorded RateMetric.new RateMetric.add (readable_writes h rateWrite_writesOf)
  rw [rateGet_eq,
    total_live hq hholds RateMetric.passes _ (MetricsRegistry.total_passes_record samples),
    total_live hq hholds RateMetric.total (fun _ => 1)
    (MetricsRegistry.total_checks_record samples)]

/-- A trend counts the values that the query selects. -/
theorem trendCount_record {samples : List (Sample F)} (h : ∀ s ∈ samples, Readable s.selector)
    {q : Str} {query : MetricSelector} (hq : parse q = .ok query) :
    ((.record samples : MetricsRegistry F H).trendStats q).elim 0 TrendStats.count =
      sumOver (selects query) (fun _ => 1) (samples.filterMap Sample.trendWrite) := by
  rw [trendStats_count]
  refine total_live hq ?_ TrendMetric.count (fun _ => 1)
    (MetricsRegistry.total_values_record samples)
  rw [MetricsRegistry.trends_record]
  exact holdsWrites_recorded TrendMetric.new TrendMetric.record
    (readable_writes h trendWrite_writesOf)

/-! ## Histories with gauges -/

/-- The sample of a write, if it is none of a gauge. -/
def Write.sample? {F : Type} : Write F → Option (Sample F)
  | .sample s => some s
  | .gauge _ _ => none

variable [FloatBits F]

/-- Gauges have a store of their own. -/
theorem stores_recordAll (ws : List (Write F)) :
    (.recordAll ws : MetricsRegistry F H).counters =
        (.record (ws.filterMap Write.sample?) : MetricsRegistry F H).counters ∧
      (.recordAll ws : MetricsRegistry F H).rates =
        (.record (ws.filterMap Write.sample?) : MetricsRegistry F H).rates ∧
      (.recordAll ws : MetricsRegistry F H).trends =
        (.record (ws.filterMap Write.sample?) : MetricsRegistry F H).trends := by
  induction ws using List.reverseRecOn with
  | nil => exact ⟨rfl, rfl, rfl⟩
  | append_singleton ws w ih =>
      obtain ⟨hcounters, hrates, htrends⟩ := ih
      rw [recordAll_concat, List.filterMap_append]
      cases w with
      | gauge name value =>
          have hgauge : [Write.gauge name value].filterMap Write.sample? = [] := rfl
          rw [hgauge, List.append_nil]
          exact ⟨hcounters, hrates, htrends⟩
      | sample s =>
          have hsample : [Write.sample s].filterMap Write.sample? = [s] := rfl
          rw [hsample, MetricsRegistry.record_concat, MetricsRegistry.apply,
            MetricsRegistry.write_eq, MetricsRegistry.write_eq]
          cases s.observation with
          | counter value =>
              exact ⟨congrArg (fun m => KeyMap.upsert m s.key _) hcounters, hrates, htrends⟩
          | rate passed =>
              exact ⟨hcounters, congrArg (fun m => KeyMap.upsert m s.key _) hrates, htrends⟩
          | trend valueMs =>
              exact ⟨hcounters, hrates, congrArg (fun m => KeyMap.upsert m s.key _) htrends⟩

end Sums

/-! ## The order of the writes -/

section Order

variable {H : Type} [Histogram ℚ H] [BucketHistogram ℚ H]

end Order

end K6Rs
