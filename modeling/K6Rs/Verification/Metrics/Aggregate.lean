import K6Rs.Verification.Metrics.Histories

/-! The untagged aggregate of a metric. What a counter, a rate or a trend holds of the values
behind it is the same for recording and for merging, so that the row which merges the cells of a
metric is the cell in which its samples would be without tags. -/

namespace K6Rs

open FloatOps MetricSelector
open scoped UInt64.CommRing

/-! ## What metrics hold -/

/-- A histogram that counts values in buckets: a recorded value adds one to its bucket, if it is in
range, and histograms are added bucket by bucket. -/
class BucketHistogram (F H : Type) [Histogram F H] where
  bucketCount : H → ℕ → ℕ
  bucket : ℕ → Option ℕ
  count_new : ∀ i, bucketCount (Histogram.new F) i = 0
  count_record : ∀ h v i, bucketCount (Histogram.record F h v) i =
    bucketCount h i + if bucket v = some i then 1 else 0
  count_add : ∀ h h' i, bucketCount (Histogram.add F h h') i = bucketCount h i + bucketCount h' i

/-- Each value is a bucket of its own. -/
instance : BucketHistogram ℚ (List ℕ) where
  bucketCount h i := h.count i
  bucket v := some v
  count_new _ := rfl
  count_record h v i := by
    change (h ++ [v]).count i = _
    simp [List.count_singleton, List.count_append]
  count_add _ _ _ := List.count_append

def CounterMetric.Holds (l : List UInt64) (c : CounterMetric) : Prop := c.value = l.sum

theorem counter_keeps : Keeps CounterMetric.Holds .new (fun c value => ⟨c.value + value⟩)
    CounterMetric.merge where
  new := rfl
  record a h := by
    rw [CounterMetric.Holds] at h ⊢
    rw [h, List.sum_append, List.sum_singleton]
  merge h h' := by
    rw [CounterMetric.Holds] at h h' ⊢
    rw [CounterMetric.merge, h, h', List.sum_append]

def RateMetric.Holds (l : List Bool) (r : RateMetric) : Prop :=
  r.passes = l.count true ∧ r.total = l.length

theorem rate_keeps : Keeps RateMetric.Holds .new RateMetric.add RateMetric.merge where
  new := ⟨rfl, rfl⟩
  record a h := by
    obtain ⟨hpasses, htotal⟩ := h
    refine ⟨?_, by simp [RateMetric.add, htotal]⟩
    cases a <;> simp [RateMetric.add, hpasses, List.count_append]
  merge h h' := by
    obtain ⟨hpasses, htotal⟩ := h
    obtain ⟨hpasses', htotal'⟩ := h'
    exact ⟨by simp [RateMetric.merge, hpasses, hpasses', List.count_append],
      by simp [RateMetric.merge, htotal, htotal']⟩

section Trends

variable {H : Type} [Histogram ℚ H] [BucketHistogram ℚ H]

def bucketCount (h : H) (i : ℕ) : ℕ := BucketHistogram.bucketCount ℚ h i

/-- Whether a value is counted in the bucket `i`. -/
def inBucket (H : Type) [Histogram ℚ H] [BucketHistogram ℚ H] (i : ℕ) (valueMs : ℚ) : Bool :=
  let micros := toU64 (mul valueMs (ofRat 1000))
  1 ≤ micros && BucketHistogram.bucket ℚ H micros = some i

/-- The least value is at most the largest double, and the largest value at least its negative. -/
structure TrendMetric.Holds (l : List ℚ) (t : TrendMetric ℚ H) : Prop where
  count : t.count = l.length
  sum : t.sum = l.sum
  le_min : ∀ x, x ≤ t.min ↔ x ≤ maxDouble ∧ ∀ a ∈ l, x ≤ a
  max_le : ∀ x, t.max ≤ x ↔ -maxDouble ≤ x ∧ ∀ a ∈ l, a ≤ x
  buckets : ∀ i, bucketCount t.histogram i = l.countP (inBucket H i)

/-- Trends that nothing but the order of their values can tell apart. -/
structure TrendMetric.Same (t t' : TrendMetric ℚ H) : Prop where
  count : t.count = t'.count
  sum : t.sum = t'.sum
  min : t.min = t'.min
  max : t.max = t'.max
  buckets : ∀ i, bucketCount t.histogram i = bucketCount t'.histogram i

namespace TrendMetric

variable {l l' : List ℚ} {t t' : TrendMetric ℚ H}

theorem holds_new : Holds [] (new : TrendMetric ℚ H) where
  count := rfl
  sum := rfl
  le_min x := by
    change x ≤ maxDouble ↔ _
    simp
  max_le x := by
    change -maxDouble ≤ x ↔ _
    simp
  buckets i := BucketHistogram.count_new i

theorem Holds.record (a : ℚ) (h : Holds l t) : Holds (l ++ [a]) (t.record a) where
  count := by simp [TrendMetric.record, h.count]
  sum := by
    change t.sum + a = _
    rw [h.sum, List.sum_append, List.sum_singleton]
  le_min x := by
    rw [TrendMetric.record, ite_lt_eq_min, le_min_iff, h.le_min]
    simp only [List.mem_append, List.mem_singleton, or_imp, forall_and, forall_eq]
    tauto
  max_le x := by
    rw [TrendMetric.record, ite_lt_eq_max, max_le_iff, h.max_le]
    simp only [List.mem_append, List.mem_singleton, or_imp, forall_and, forall_eq]
    tauto
  buckets i := by
    rw [List.countP_append, ← h.buckets i, List.countP_singleton]
    change bucketCount (if 1 ≤ toU64 (mul a (ofRat 1000)) then _ else _) i = _
    rw [inBucket]
    split
    · rename_i hmicros
      simp [bucketCount, BucketHistogram.count_record, hmicros]
    · rename_i hmicros
      simp [hmicros]

theorem Holds.merge (h : Holds l t) (h' : Holds l' t') : Holds (l ++ l') (t.merge t') := by
  rw [TrendMetric.merge]
  split
  · -- A trend without samples is left out.
    rename_i hcount
    rw [h'.count, List.length_eq_zero_iff] at hcount
    rwa [hcount, List.append_nil]
  · refine ⟨by simp [h.count, h'.count], ?_, fun x => ?_, fun x => ?_, fun i => ?_⟩
    · change t.sum + t'.sum = _
      rw [h.sum, h'.sum, List.sum_append]
    · simp only [ite_lt_eq_min, le_min_iff, h.le_min, h'.le_min, List.mem_append, or_imp,
        forall_and]
      tauto
    · simp only [ite_lt_eq_max, max_le_iff, h.max_le, h'.max_le, List.mem_append, or_imp,
        forall_and]
      tauto
    · simp only [bucketCount, BucketHistogram.count_add, List.countP_append]
      exact congrArg₂ (· + ·) (h.buckets i) (h'.buckets i)

theorem keeps : Keeps (Holds (H := H)) new TrendMetric.record TrendMetric.merge where
  new := holds_new
  record a h := h.record a
  merge h h' := h.merge h'

theorem Holds.same (hperm : l.Perm l') (h : Holds l t) (h' : Holds l' t') : t.Same t' where
  count := by rw [h.count, h'.count, hperm.length_eq]
  sum := by rw [h.sum, h'.sum, hperm.sum_eq]
  min := eq_of_forall_le_iff fun x => by simp only [h.le_min, h'.le_min, hperm.mem_iff]
  max := eq_of_forall_ge_iff fun x => by simp only [h.max_le, h'.max_le, hperm.mem_iff]
  buckets i := by rw [h.buckets, h'.buckets, hperm.countP_eq]

end TrendMetric

/-! ## The untagged aggregate -/

/-- The same sample without tags. -/
def Sample.untagged {F : Type} (s : Sample F) : Sample F := { s with tagging := .none }

section Writes

variable {F α : Type} {part : Sample F → Option (MetricSelector × α)} {samples : List (Sample F)}

theorem readable_writes (h : ∀ s ∈ samples, Readable s.selector) {k : MetricKind}
    (hpart : WritesOf part k) : ∀ w ∈ samples.filterMap part, Readable w.1 := by
  intro w hw
  obtain ⟨s, hs, hsome⟩ := List.mem_filterMap.mp hw
  rw [← (hpart s w hsome).1]
  exact h s hs

theorem filterMap_untagged (hpart : ∀ s, part s.untagged = (part s).map bare) :
    (samples.map Sample.untagged).filterMap part = (samples.filterMap part).map bare := by
  rw [List.filterMap_map, List.map_filterMap]
  exact List.filterMap_congr fun s _ => hpart s

theorem counterWrite_untagged (s : Sample F) :
    s.untagged.counterWrite = s.counterWrite.map bare := by
  obtain ⟨name, tagging, observation⟩ := s
  cases observation <;> rfl

theorem rateWrite_untagged (s : Sample F) : s.untagged.rateWrite = s.rateWrite.map bare := by
  obtain ⟨name, tagging, observation⟩ := s
  cases observation <;> rfl

theorem trendWrite_untagged (s : Sample F) : s.untagged.trendWrite = s.trendWrite.map bare := by
  obtain ⟨name, tagging, observation⟩ := s
  cases observation <;> rfl

end Writes

/-- The untagged rows of a metric name in the snapshot of a registry are its cells in another: the
same counts, sums, extrema and buckets. -/
structure SameRows (name : Str) (durationSecs : ℚ) (reg reg' : MetricsRegistry ℚ H) : Prop where
  counter : (reg.snapshot durationSecs).counters.find? (fun row => row.1 = name) =
    (reg'.counters.find? name).map fun c => (name, counterAnswer durationSecs c)
  rate : (reg.snapshot durationSecs).rates.find? (fun row => row.1 = name) =
    (reg'.rates.find? name).map fun r => (name, rateAnswer r.passes r.total)
  trend : Option.Rel TrendMetric.Same ((deriveTrends reg.trends).find? name) (reg'.trends.find?
    name)
  stats : Option.Rel (fun row t => row.2.count = t.stats.count ∧ row.2.avg = t.stats.avg ∧
      row.2.min = t.stats.min ∧ row.2.max = t.stats.max)
    ((reg.snapshot durationSecs).trends.find? fun row => row.1 = name) (reg'.trends.find? name)
  histogram : Option.Rel (fun h t => ∀ i, bucketCount h i = bucketCount t.histogram i)
    ((reg.snapshot durationSecs).trendHistograms.find? name) (reg'.trends.find? name)

/-- The values of the metric among samples, by the kind of their writes. -/
def metricValues {α : Type} (part : Sample ℚ → Option (MetricSelector × α)) (name : Str)
    (samples : List (Sample ℚ)) : List α :=
  valuesOf (fun sel => sel.name = name) (samples.filterMap part)

/-- The untagged rows of a metric name are the sums of its samples, if it has any. -/
structure RowsAreSums (name : Str) (durationSecs : ℚ) (samples : List (Sample ℚ))
    (reg : MetricsRegistry ℚ H) : Prop where
  counter : (reg.snapshot durationSecs).counters.find? (fun row => row.1 = name) =
    if metricValues Sample.counterWrite name samples = [] then none
    else some (name,
      counterAnswer durationSecs ⟨(metricValues Sample.counterWrite name samples).sum⟩)
  rate : (reg.snapshot durationSecs).rates.find? (fun row => row.1 = name) =
    if metricValues Sample.rateWrite name samples = [] then none
    else some (name, rateAnswer ((metricValues Sample.rateWrite name samples).count true)
      (metricValues Sample.rateWrite name samples).length)
  trend : ((deriveTrends reg.trends).find? name = none ↔
      metricValues Sample.trendWrite name samples = []) ∧
    ∀ t, (deriveTrends reg.trends).find? name = some t →
      t.Holds (metricValues Sample.trendWrite name samples)
  stats : ∀ row, (reg.snapshot durationSecs).trends.find? (fun row => row.1 = name) = some row →
    row.2.count = (metricValues Sample.trendWrite name samples).length ∧
      row.2.avg = (metricValues Sample.trendWrite name samples).sum /
        (metricValues Sample.trendWrite name samples).length

omit [BucketHistogram ℚ H] in
theorem find?_trendHistograms (reg : MetricsRegistry ℚ H) (durationSecs : ℚ) (name : Str) :
    (reg.snapshot durationSecs).trendHistograms.find? name =
      ((deriveTrends reg.trends).find? name).map TrendMetric.histogram := by
  apply Option.ext
  intro h
  simp only [MetricsRegistry.snapshot, KeyMap.find?_eq_some_iff, List.mem_map, Prod.mk.injEq,
    Option.map_eq_some_iff]
  constructor
  · rintro ⟨e, he, rfl, rfl⟩
    exact ⟨e.2, he, rfl⟩
  · rintro ⟨t, ht, rfl⟩
    exact ⟨(name, t), ht, rfl, rfl⟩

theorem TrendMetric.Same.stats {t t' : TrendMetric ℚ H} (h : t.Same t') :
    t.stats.count = t'.stats.count ∧ t.stats.avg = t'.stats.avg ∧ t.stats.min = t'.stats.min ∧
      t.stats.max = t'.stats.max := by
  rw [TrendMetric.stats, TrendMetric.stats, h.count, h.sum, h.min, h.max]
  split <;> exact ⟨rfl, rfl, rfl, rfl⟩

theorem CounterMetric.shown {values : List UInt64} {row : Option CounterMetric}
    (h : Shows Holds values row) : row = if values = [] then none else some ⟨values.sum⟩ := by
  cases row with
  | none => exact (if_pos h).symm
  | some c =>
      obtain ⟨hne, l, hl, hc⟩ := h
      have hc : c.value = values.sum := hc.trans hl.sum_eq
      rw [if_neg hne, ← hc]

theorem RateMetric.shown {values : List Bool} {row : Option RateMetric}
    (h : Shows Holds values row) :
    row = if values = [] then none else some ⟨values.count true, values.length⟩ := by
  cases row with
  | none => exact (if_pos h).symm
  | some r =>
      obtain ⟨hne, l, hl, hpasses, htotal⟩ := h
      rw [if_neg hne, ← hl.count_eq, ← hl.length_eq, ← hpasses, ← htotal]

theorem TrendMetric.Holds.perm {l l' : List ℚ} {t : TrendMetric ℚ H} (h : t.Holds l)
    (hperm : l.Perm l') :
    t.Holds l' where
  count := by rw [h.count, hperm.length_eq]
  sum := by rw [h.sum, hperm.sum_eq]
  le_min x := by simp only [h.le_min, hperm.mem_iff]
  max_le x := by simp only [h.max_le, hperm.mem_iff]
  buckets i := by rw [h.buckets, hperm.countP_eq]

section Rows

variable {samples : List (Sample ℚ)} (h : ∀ s ∈ samples, Readable s.selector)
  {reg : MetricsRegistry ℚ H} (hreg : reg.Reordered (.record samples)) {name : Str}
  (hname : Readable ⟨name, ∅⟩)

include h hreg hname

omit [BucketHistogram ℚ H] in
theorem shows_counters : Shows CounterMetric.Holds (metricValues Sample.counterWrite name samples)
    ((deriveCounters reg.counters).find? name) := by
  have hperm := hreg.counters
  rw [MetricsRegistry.counters_record] at hperm
  exact counter_keeps.untagged_row (readable_writes h counterWrite_writesOf) hperm hname

omit [BucketHistogram ℚ H] in
theorem shows_rates : Shows RateMetric.Holds (metricValues Sample.rateWrite name samples)
    ((deriveRates reg.rates).find? name) := by
  have hperm := hreg.rates
  rw [MetricsRegistry.rates_record] at hperm
  exact rate_keeps.untagged_row (readable_writes h rateWrite_writesOf) hperm hname

theorem shows_trends : Shows TrendMetric.Holds (metricValues Sample.trendWrite name samples)
    ((deriveTrends reg.trends).find? name) := by
  have hperm := hreg.trends
  rw [MetricsRegistry.trends_record] at hperm
  exact TrendMetric.keeps.untagged_row (readable_writes h trendWrite_writesOf) hperm hname

theorem rowsAreSums (durationSecs : ℚ) : RowsAreSums name durationSecs samples reg := by
  have htrends := shows_trends h hreg hname
  have hheld : ∀ t, (deriveTrends reg.trends).find? name = some t →
      metricValues Sample.trendWrite name samples ≠ [] ∧
        t.Holds (metricValues Sample.trendWrite name samples) := by
    intro t ht
    rw [ht] at htrends
    obtain ⟨hne, l, hl, hholds⟩ := htrends
    exact ⟨hne, hholds.perm hl⟩
  refine ⟨?_, ?_, ⟨?_, fun t ht => (hheld t ht).2⟩, fun row hrow => ?_⟩
  · rw [counters_snapshot, find?_sortByKey, ← deriveCounters,
      CounterMetric.shown (shows_counters h hreg hname)]
    split <;> rfl
  · refine (find?_sortByKey _ (fun r : RateMetric => (rateAnswer r.passes r.total : ℚ × ℕ × ℕ))
      name).trans ((congrArg _ (RateMetric.shown (shows_rates h hreg hname))).trans ?_)
    split <;> rfl
  · generalize (deriveTrends reg.trends).find? name = row at htrends
    cases row with
    | none => exact iff_of_true rfl htrends
    | some t => exact iff_of_false (fun hnone => by cases hnone) htrends.1
  · rw [trends_snapshot, find?_sortByKey, ← deriveTrends, Option.map_eq_some_iff] at hrow
    obtain ⟨t, ht, rfl⟩ := hrow
    obtain ⟨hne, hholds⟩ := hheld t ht
    have hcount : t.count ≠ 0 := by
      rw [hholds.count]
      exact mt List.length_eq_zero_iff.mp hne
    rw [TrendMetric.stats, if_neg hcount, ← hholds.count, ← hholds.sum]
    exact ⟨rfl, rfl⟩

end Rows

section Cells

variable {samples : List (Sample ℚ)} {reg : MetricsRegistry ℚ H}
  (hreg : reg.Reordered (.record (samples.map Sample.untagged))) (name : Str)

include hreg

omit [BucketHistogram ℚ H] in
theorem counterCell_shows :
    Shows CounterMetric.Holds (metricValues Sample.counterWrite name samples)
    (reg.counters.find? name) := by
  have hperm := hreg.counters
  rw [MetricsRegistry.counters_record, filterMap_untagged counterWrite_untagged] at hperm
  exact counter_keeps.untagged_cell hperm name

omit [BucketHistogram ℚ H] in
theorem rateCell_shows : Shows RateMetric.Holds (metricValues Sample.rateWrite name samples)
    (reg.rates.find? name) := by
  have hperm := hreg.rates
  rw [MetricsRegistry.rates_record, filterMap_untagged rateWrite_untagged] at hperm
  exact rate_keeps.untagged_cell hperm name

theorem trendCell_shows : Shows TrendMetric.Holds (metricValues Sample.trendWrite name samples)
    (reg.trends.find? name) := by
  have hperm := hreg.trends
  rw [MetricsRegistry.trends_record, filterMap_untagged trendWrite_untagged] at hperm
  exact TrendMetric.keeps.untagged_cell hperm name

end Cells

/-- The untagged aggregate of a metric is the cell that its samples would give without tags, and
their sums, in whatever order the cells are visited. -/
theorem sameRows_untagged {samples : List (Sample ℚ)} (h : ∀ s ∈ samples, Readable s.selector)
    {reg reg' : MetricsRegistry ℚ H} (hreg : reg.Reordered (.record samples))
    (hreg' : reg'.Reordered (.record (samples.map Sample.untagged))) {name : Str}
    (hname : Readable ⟨name, ∅⟩) (durationSecs : ℚ) :
    SameRows name durationSecs reg reg' ∧ RowsAreSums name durationSecs samples reg := by
  have hcounter : (deriveCounters reg.counters).find? name = reg'.counters.find? name :=
    (CounterMetric.shown (shows_counters h hreg hname)).trans
      (CounterMetric.shown (counterCell_shows hreg' name)).symm
  have hrate : (deriveRates reg.rates).find? name = reg'.rates.find? name :=
    (RateMetric.shown (shows_rates h hreg hname)).trans
      (RateMetric.shown (rateCell_shows hreg' name)).symm
  have htrend := Shows.rel TrendMetric.Holds.same (shows_trends h hreg hname)
    (trendCell_shows hreg' name)
  refine ⟨⟨?_, ?_, htrend, ?_, ?_⟩, rowsAreSums h hreg hname durationSecs⟩
  · rw [counters_snapshot, find?_sortByKey, ← deriveCounters, hcounter]
  · exact (find?_sortByKey _ (fun r : RateMetric => (rateAnswer r.passes r.total : ℚ × ℕ × ℕ))
      name).trans (congrArg _ hrate)
  · rw [trends_snapshot, find?_sortByKey, ← deriveTrends]
    generalize (deriveTrends reg.trends).find? name = row at htrend ⊢
    generalize reg'.trends.find? name = cell at htrend ⊢
    cases htrend with
    | none => exact .none
    | some hsame => exact .some hsame.stats
  · rw [find?_trendHistograms]
    generalize (deriveTrends reg.trends).find? name = row at htrend ⊢
    generalize reg'.trends.find? name = cell at htrend ⊢
    cases htrend with
    | none => exact .none
    | some hsame => exact .some hsame.buckets

/-- Two samples with tags, the second below a microsecond, and one without. -/
def mixedTrend : List (Sample ℚ) :=
  [⟨"t".toList, .pairs [("a".toList, "1".toList)], .trend 5⟩,
    ⟨"t".toList, .none, .trend 2⟩,
    ⟨"t".toList, .pairs [("a".toList, "2".toList)], .trend (1 / 10000)⟩]

theorem sameRows_untagged_mixed :
    SameRows "t".toList 1 (.record mixedTrend : MetricsRegistry ℚ (List ℕ))
        (.record (mixedTrend.map Sample.untagged)) ∧
      RowsAreSums "t".toList 1 mixedTrend (.record mixedTrend : MetricsRegistry ℚ (List ℕ)) :=
  sameRows_untagged (by unfold Readable; decide) ⟨.rfl, .rfl, .rfl, .rfl⟩ ⟨.rfl, .rfl, .rfl, .rfl⟩
    (by unfold Readable; decide) 1

end Trends

end K6Rs
