import K6Rs.Model.Summary
import K6Rs.Verification.Metrics.Aggregate
import Mathlib.Algebra.Order.BigOperators.Group.List

/-! The rows that the summary synthesizes for tagged threshold keys, against the live reads of the
registry. The merge of the rows holds the values that the merge of the cells holds; a trend row
loses an extremum that is one of the largest doubles. -/

namespace K6Rs

open FloatOps MetricSelector
open scoped UInt64.CommRing

/-! ## The merge of trend rows -/

section Trends

variable {H : Type} [Histogram ℚ H] [BucketHistogram ℚ H]

/-- What the merge over trend rows holds of the values behind them. -/
structure SubsetTrend.Holds (l : List ℚ) (acc : SubsetTrend ℚ H) : Prop where
  count : acc.count = l.length
  sum : acc.sum = l.sum
  le_min : ∀ x, x ≤ acc.min ↔ x ≤ maxDouble ∧ ∀ a ∈ l, x ≤ a
  max_le : ∀ x, acc.max ≤ x ↔ -maxDouble ≤ x ∧ ∀ a ∈ l, a ≤ x
  buckets : ∀ i, acc.hist.elim 0 (fun h => bucketCount h i) = l.countP (inBucket H i)
  hist_isSome : l ≠ [] → acc.hist.isSome

namespace SubsetTrend

theorem holds_new : Holds [] (new : SubsetTrend ℚ H) where
  count := rfl
  sum := rfl
  le_min x := by
    change x ≤ maxDouble ↔ _
    simp
  max_le x := by
    change -maxDouble ≤ x ↔ _
    simp
  buckets _ := rfl
  hist_isSome h := absurd rfl h

/-- A trend with samples shows its own extrema. -/
theorem stats_of_filled {l : List ℚ} {t : TrendMetric ℚ H} (h : Filled TrendMetric.Holds l t) :
    t.stats.count = t.count ∧ t.stats.min = t.min ∧ t.stats.max = t.max := by
  have hcount : t.count ≠ 0 := by
    rw [h.2.count]
    exact fun hnil => h.1 (List.length_eq_zero_iff.mp hnil)
  rw [TrendMetric.stats, if_neg hcount]
  exact ⟨rfl, rfl, rfl⟩

theorem Holds.add {l l' : List ℚ} {acc : SubsetTrend ℚ H} {t : TrendMetric ℚ H} (h : Holds l acc)
    (h' : Filled TrendMetric.Holds l' t) :
    Holds (l ++ l') (acc.add t.stats (some t.histogram)) := by
  obtain ⟨hcount, hmin, hmax⟩ := stats_of_filled h'
  refine ⟨?_, ?_, fun x => ?_, fun x => ?_, fun i => ?_, fun _ => ?_⟩
  · change acc.count + t.stats.count = _
    rw [hcount, h.count, h'.2.count, List.length_append]
  · change acc.sum + t.stats.avg * (t.stats.count : ℚ) = _
    rw [avg_mul_count_stats, h.sum, h'.2.sum, List.sum_append]
  · simp only [SubsetTrend.add, hmin, ite_lt_eq_min, le_min_iff, h.le_min, h'.2.le_min,
      List.mem_append, or_imp, forall_and]
    tauto
  · simp only [SubsetTrend.add, hmax, ite_lt_eq_max, max_le_iff, h.max_le, h'.2.max_le,
      List.mem_append, or_imp, forall_and]
    tauto
  · rw [List.countP_append, ← h.buckets i, ← h'.2.buckets i]
    cases hhist : acc.hist with
    | none => simp [SubsetTrend.add, hhist]
    | some m => simp [SubsetTrend.add, hhist, bucketCount, BucketHistogram.count_add]
  · cases hhist : acc.hist <;> simp [SubsetTrend.add, hhist]

theorem holds_foldl {ls : List (List ℚ)} {ts : List (TrendMetric ℚ H)}
    (h : List.Forall₂ (Filled TrendMetric.Holds) ls ts) {l : List ℚ} {acc : SubsetTrend ℚ H}
    (hacc : Holds l acc) :
    Holds (l ++ ls.flatten)
      (ts.foldl (fun acc t => acc.add t.stats (some t.histogram)) acc) := by
  induction h generalizing l acc with
  | nil => rwa [List.flatten_nil, List.append_nil]
  | cons ht _ ih =>
      rw [List.flatten_cons, ← List.append_assoc]
      exact ih (hacc.add ht)

end SubsetTrend

/-! ## The merge of cells -/

/-- The trend that a live read merges. -/
def MetricsRegistry.liveTrend (reg : MetricsRegistry ℚ H) (q : Str) : Option (TrendMetric ℚ H) :=
  ((reg.trends.entries.filter fun e => storedMatchesQuery e.1 (parseQuery q) q).map Prod.snd).foldl
    mergeInto none

theorem foldl_mergeInto_holds {ls : List (List ℚ)} {ts : List (TrendMetric ℚ H)}
    (h : List.Forall₂ (Filled TrendMetric.Holds) ls ts) {l : List ℚ} {t : TrendMetric ℚ H}
    (ht : Filled TrendMetric.Holds l t) :
    ∃ u, ts.foldl MetricsRegistry.mergeInto (some t) = some u ∧
      Filled TrendMetric.Holds (l ++ ls.flatten) u := by
  induction h generalizing l t with
  | nil => exact ⟨t, rfl, by rwa [List.flatten_nil, List.append_nil]⟩
  | cons hcell _ ih =>
      rw [List.flatten_cons, ← List.append_assoc]
      exact ih (TrendMetric.keeps.filled_merge ht hcell)

/-- The live trend holds the selected values, if there are any. -/
theorem liveTrend_holds {ls : List (List ℚ)} {ts : List (TrendMetric ℚ H)}
    (h : List.Forall₂ (Filled TrendMetric.Holds) ls ts) :
    ts.foldl MetricsRegistry.mergeInto none = none ∧ ls.flatten = [] ∨
      ∃ u, ts.foldl MetricsRegistry.mergeInto none = some u ∧
        Filled TrendMetric.Holds ls.flatten u := by
  cases h with
  | nil => exact .inl ⟨rfl, rfl⟩
  | cons hcell hrest => exact .inr (foldl_mergeInto_holds hrest hcell)

end Trends

/-! ## The row of a threshold key -/

theorem subsetMatches_eq {q : Str} {query : MetricSelector} (hq : parse q = .ok query) :
    subsetMatches query = storedIsSubsetMatch q := by
  funext stored
  rw [subsetMatches, storedIsSubsetMatch, hq]
  cases parse stored <;> rfl

theorem subsetMatches_self {query : MetricSelector} (h : Readable query) :
    subsetMatches query (canonical query) = true := by
  rw [subsetMatches, h]
  simp [tagsMatch_self]

theorem canonical_inj {sel sel' : MetricSelector} (h : Readable sel) (h' : Readable sel')
    (heq : canonical sel = canonical sel') : sel = sel' := by
  rw [Readable, heq, h'] at h
  exact (Except.ok.inj h).symm

section Rows

variable {F H : Type} [FloatOps F] [Histogram F H] (snapshot : MetricsSnapshot F H)

theorem readable_thresholdSelectors (thresholds : Option (KeyMap Str (List Threshold))) :
    ∀ sel ∈ thresholdSelectors thresholds, Readable sel := by
  intro sel hsel
  rw [thresholdSelectors, List.mem_append, List.mem_singleton] at hsel
  rcases hsel with hsel | rfl
  · cases thresholds with
    | none => cases hsel
    | some t =>
        obtain ⟨hmem, _⟩ := List.mem_filter.mp hsel
        obtain ⟨e, _, hparse⟩ := List.mem_filterMap.mp hmem
        cases hkey : parse e.1 with
        | error e => simp [hkey, Except.toOption] at hparse
        | ok sel' =>
            simp only [hkey, Except.toOption, Option.some.injEq] at hparse
            exact hparse ▸ parse_canonical_of_parse hkey
  · unfold Readable
    decide

theorem mem_thresholdSelectors {thresholds : KeyMap Str (List Threshold)} {q : Str}
    (hkey : q ∈ thresholds.entries.map Prod.fst) {query : MetricSelector} (hq : parse q = .ok query)
    (htags : query.tags ≠ ∅) : query ∈ thresholdSelectors (some thresholds) := by
  obtain ⟨e, he, rfl⟩ := List.mem_map.mp hkey
  refine List.mem_append_left _ (List.mem_filter.mpr ⟨?_, ?_⟩)
  · exact List.mem_filterMap.mpr ⟨e, he, by rw [hq]; rfl⟩
  · rw [Bool.not_eq_true', ← Bool.not_eq_true, SortedMap.isEmpty_iff]
    exact htags

/-- A selector among those that are synthesized has its synthesized row, if there is one. -/
theorem find?_synthesizeRows {selectors : List MetricSelector} (h : ∀ sel ∈ selectors, Readable sel)
    (metrics : KeyMap Str (SummaryMetric F)) {sel : MetricSelector} (hsel : Readable sel) :
    (synthesizeRows snapshot selectors metrics).find? (canonical sel) =
      if sel ∈ selectors then
        (synthesizeSubsetMetric sel snapshot).or (metrics.find? (canonical sel))
      else metrics.find? (canonical sel) := by
  induction selectors using List.reverseRecOn with
  | nil => rfl
  | append_singleton selectors last ih =>
      have hlast : Readable last := h last (by simp)
      have hrest := ih fun sel hmem => h sel (List.mem_append_left _ hmem)
      rw [synthesizeRows, List.foldl_append, List.foldl_cons, List.foldl_nil, ← synthesizeRows]
      by_cases heq : sel = last
      · subst heq
        rw [if_pos (by simp)]
        cases hsynth : synthesizeSubsetMetric sel snapshot with
        | none =>
            rw [hsynth, Option.none_or, ite_self] at hrest
            rw [hrest, Option.none_or]
        | some synth => simp
      · have hne : canonical sel ≠ canonical last := fun hc => heq (canonical_inj hsel hlast hc)
        have hmem : sel ∈ selectors ++ [last] ↔ sel ∈ selectors := by simp [heq]
        simp only [hmem]
        rw [← hrest]
        cases synthesizeSubsetMetric last snapshot with
        | none => rfl
        | some synth => exact KeyMap.find?_upsert_of_ne _ _ hne

omit [FloatOps F] in
theorem find?_showRows_of_not_mem {μ : Type} {shown : Str → Bool}
    {toMetric : Str → μ → SummaryMetric F}
    {rows : List (Str × μ)} {metrics : KeyMap Str (SummaryMetric F)} {name : Str}
    (h : ∀ row ∈ rows, row.1 ≠ name) :
    (showRows shown toMetric rows metrics).find? name = metrics.find? name := by
  rw [showRows]
  have hfilter : ∀ row ∈ rows.filter fun row => shown row.1, row.1 ≠ name :=
    fun row hrow => h row (List.mem_filter.mp hrow).1
  generalize rows.filter (fun row => shown row.1) = rows at hfilter ⊢
  induction rows generalizing metrics with
  | nil => rfl
  | cons row rows ih =>
      rw [List.foldl_cons, ih fun r hr => hfilter r (List.mem_cons_of_mem _ hr)]
      exact KeyMap.find?_upsert_of_ne _ _ (hfilter row (List.mem_cons_self ..)).symm

/-- A row with the canonical name of a selector matches it. -/
theorem not_named_of_filter_eq_nil {μ : Type} {rows : List (Str × μ)} {query : MetricSelector}
    (hquery : Readable query) (h : rows.filter (fun row => subsetMatches query row.1) = []) :
    ∀ row ∈ rows, row.1 ≠ canonical query := by
  intro row hrow heq
  have hnot := List.filter_eq_nil_iff.mp h row hrow
  rw [heq] at hnot
  exact hnot (subsetMatches_self hquery)

/-- Without gauges, the row of a tagged threshold key is the one that is synthesized for it. -/
theorem find?_buildSummaryData (md5 : Str → Str) (isTerminal : Bool) (groupTree : GroupSnapshot F)
    (durationSecs : F) {thresholds : KeyMap Str (List Threshold)} {q : Str}
    (hkey : q ∈ thresholds.entries.map Prod.fst) {query : MetricSelector} (hq : parse q = .ok query)
    (htags : query.tags ≠ ∅) (hgauges : snapshot.gauges = []) :
    (buildSummaryData md5 isTerminal snapshot groupTree durationSecs
      (some thresholds)).metrics.find?
        (canonical query) = synthesizeSubsetMetric query snapshot := by
  have hquery : Readable query := parse_canonical_of_parse hq
  rw [buildSummaryData]
  dsimp only
  rw [find?_synthesizeRows snapshot (readable_thresholdSelectors _) _ hquery,
    if_pos (mem_thresholdSelectors hkey hq htags)]
  cases hsynth : synthesizeSubsetMetric query snapshot with
  | some synth => rfl
  | none =>
      -- A row with the canonical name would have been merged.
      rw [synthesizeSubsetMetric] at hsynth
      split at hsynth
      · cases hsynth
      rename_i htrends
      split at hsynth
      · cases hsynth
      rename_i hcounters
      split at hsynth
      · cases hsynth
      rename_i hrates
      rw [Option.none_or, snapshotRows, find?_showRows_of_not_mem, find?_showRows_of_not_mem,
        find?_showRows_of_not_mem, find?_showRows_of_not_mem]
      · rfl
      · exact not_named_of_filter_eq_nil hquery (by simpa using hcounters)
      · simp [hgauges]
      · exact not_named_of_filter_eq_nil hquery (by simpa using hrates)
      · exact not_named_of_filter_eq_nil hquery (by simpa using htrends)

end Rows

/-! ## The synthesized row of each kind -/

section Synthesis

variable {H : Type} [Histogram ℚ H]

variable {kind : Str → MetricKind} {samples : List (Sample ℚ)} (hs : OneKindEach kind samples)
  {reg : MetricsRegistry ℚ H} (hreg : reg.Reordered (.record samples)) (durationSecs : ℚ)
  {q : Str} {query : MetricSelector} (hq : parse q = .ok query) (htags : query.tags ≠ ∅)

include htags in
omit [Histogram ℚ H] in
theorem sumOver_seenAgain {α M : Type} [AddCommMonoid M] (amount : α → M)
    (ws : List (MetricSelector × α)) : sumOver (seenAgain query) amount ws = 0 := by
  refine sumOver_eq_zero amount fun w _ => ?_
  rw [seenAgain, Bool.eq_false_iff.mpr fun hempty => htags ((SortedMap.isEmpty_iff _).mp hempty),
    Bool.false_and]

include hs in
omit [Histogram ℚ H] in
/-- A sample of a metric is written to the store of its kind. -/
theorem exists_selected_iff {α : Type} {part : Sample ℚ → Option (MetricSelector × α)}
    {k : MetricKind} (hpart : WritesOf part k) (hall : ∀ s : Sample ℚ, s.kind = k → (part s).isSome)
    (hkind : kind query.name = k) :
    (∃ s ∈ samples, selects query s.selector = true) ↔
      ¬∀ w ∈ samples.filterMap part, selects query w.1 = false := by
  constructor
  · rintro ⟨s, hmem, hsel⟩ hnone
    have hname : s.name = query.name := beq_iff_eq.mp (Bool.and_eq_true_iff.mp hsel).1
    obtain ⟨w, hw⟩ := Option.isSome_iff_exists.mp (hall s (by rw [hs.kinds s hmem, hname, hkind]))
    have hnot := hnone w (List.mem_filterMap.mpr ⟨s, hmem, hw⟩)
    rw [← (hpart s w hw).1, hsel] at hnot
    cases hnot
  · intro hsome
    push Not at hsome
    obtain ⟨w, hw, hsel⟩ := hsome
    obtain ⟨s, hmem, hpart'⟩ := List.mem_filterMap.mp hw
    refine ⟨s, hmem, ?_⟩
    rw [(hpart s w hpart').1]
    simpa using hsel

include hq in
theorem synthesize_eq {snapshot : MetricsSnapshot ℚ H} :
    synthesizeSubsetMetric query snapshot =
      if matchingRows q snapshot.trends ≠ [] then
        some (.ofTrend query.name (SubsetTrend.merge query snapshot).stats)
      else if matchingRows q snapshot.counters ≠ [] then
        some (.ofCounter ((matchingRows q snapshot.counters).map fun row => row.2.1).sum
          ((matchingRows q snapshot.counters).foldl (fun rate row => add rate row.2.2) zero))
      else if matchingRows q snapshot.rates ≠ [] then
        let passes := ((matchingRows q snapshot.rates).map fun row => row.2.2.1).sum
        let total := ((matchingRows q snapshot.rates).map fun row => row.2.2.2).sum
        some (.ofRate (if 0 < total then div (ofNat passes) (ofNat total) else zero) passes total)
      else none := by
  have hany : (snapshot.trends.any fun row => storedIsSubsetMatch q row.1) =
      !(matchingRows q snapshot.trends).isEmpty := by
    rw [matchingRows, Bool.eq_iff_iff]
    simp
  rw [synthesizeSubsetMetric]
  simp only [subsetMatches_eq hq]
  rw [hany]
  simp only [Bool.not_eq_true', List.isEmpty_eq_false_iff, ne_eq]
  rfl

include hs hreg hq

/-- The row of a counter, in the terms of the snapshot. -/
theorem synthesize_counter (hkind : kind query.name = .counter) :
    synthesizeSubsetMetric query (reg.snapshot durationSecs) =
      if matchingRows q (reg.snapshot durationSecs).counters ≠ [] then
        some (.ofCounter (sumOver (selects query) (fun v => v)
            (samples.filterMap Sample.counterWrite) +
          sumOver (seenAgain query) (fun v => v) (samples.filterMap Sample.counterWrite))
          ((matchingRows q (reg.snapshot durationSecs).counters).foldl
            (fun rate row => add rate row.2.2) zero))
      else none := by
  have htrends := (trendRows_eq_nil_iff hs hreg durationSecs hq).mpr
    (not_selected hs trendWrite_writesOf (by simp [hkind]))
  have hrates := (rateRows_eq_nil_iff hs hreg durationSecs hq).mpr
    (not_selected hs rateWrite_writesOf (by simp [hkind]))
  have hsum := sum_matchingRows (q := q) (deriveRows CounterMetric.merge reg.counters)
    (counterAnswer durationSecs) (fun row => row.2.1) CounterMetric.value fun _ _ => rfl
  rw [← counters_snapshot, (counter_totals hs hreg hq).engine] at hsum
  rw [synthesize_eq hq, htrends, hrates, hsum]
  rfl

theorem synthesize_rate (hkind : kind query.name = .rate) :
    synthesizeSubsetMetric query (reg.snapshot durationSecs) =
      if matchingRows q (reg.snapshot durationSecs).rates ≠ [] then
        let passes := sumOver (selects query) Bool.toNat (samples.filterMap Sample.rateWrite) +
          sumOver (seenAgain query) Bool.toNat (samples.filterMap Sample.rateWrite)
        let total := sumOver (selects query) (fun _ => 1) (samples.filterMap Sample.rateWrite) +
          sumOver (seenAgain query) (fun _ => 1) (samples.filterMap Sample.rateWrite)
        some (.ofRate (if 0 < total then div (ofNat passes) (ofNat total) else zero) passes total)
      else none := by
  have htrends := (trendRows_eq_nil_iff hs hreg durationSecs hq).mpr
    (not_selected hs trendWrite_writesOf (by simp [hkind]))
  have hcounters := (counterRows_eq_nil_iff hs hreg durationSecs hq).mpr
    (not_selected hs counterWrite_writesOf (by simp [hkind]))
  have hpasses := sum_matchingRows (q := q) (deriveRows RateMetric.merge reg.rates)
    (fun r => (rateAnswer r.passes r.total : ℚ × ℕ × ℕ)) (fun row => row.2.2.1)
    RateMetric.passes fun _ _ => rfl
  have htotal := sum_matchingRows (q := q) (deriveRows RateMetric.merge reg.rates)
    (fun r => (rateAnswer r.passes r.total : ℚ × ℕ × ℕ)) (fun row => row.2.2.2)
    RateMetric.total fun _ _ => rfl
  rw [← rates_snapshot, (passes_totals hs hreg hq).engine] at hpasses
  rw [← rates_snapshot, (checks_totals hs hreg hq).engine] at htotal
  rw [synthesize_eq hq, htrends, hcounters, hpasses, htotal]
  rfl

theorem synthesize_trend (hkind : kind query.name = .trend) :
    synthesizeSubsetMetric query (reg.snapshot durationSecs) =
      if matchingRows q (reg.snapshot durationSecs).trends ≠ [] then
        some (.ofTrend query.name (SubsetTrend.merge query (reg.snapshot durationSecs)).stats)
      else none := by
  have hcounters := (counterRows_eq_nil_iff hs hreg durationSecs hq).mpr
    (not_selected hs counterWrite_writesOf (by simp [hkind]))
  have hrates := (rateRows_eq_nil_iff hs hreg durationSecs hq).mpr
    (not_selected hs rateWrite_writesOf (by simp [hkind]))
  rw [synthesize_eq hq, hcounters, hrates]
  rfl

end Synthesis

/-! ## The row and the live read -/

section Live

variable {H : Type} [Histogram ℚ H] [BucketHistogram ℚ H]

/-- The row of a threshold key says what the live read of the key says, by the kind of the
metric. -/
structure RowIsLive (kind : MetricKind) (reg : MetricsRegistry ℚ H) (durationSecs : ℚ) (q : Str)
    (query : MetricSelector) (row : SummaryMetric ℚ) : Prop where
  counter : kind = .counter → row.metricType = "counter".toList ∧
    row.values.find? "count".toList = some ((reg.counterGet q).toNat : ℚ)
  rate : kind = .rate → row.metricType = "rate".toList ∧
    row.values.find? "passes".toList = some ((reg.rateGet q).2.1 : ℚ) ∧
    row.values.find? "fails".toList = some (((reg.rateGet q).2.2 - (reg.rateGet q).2.1 : ℕ) : ℚ) ∧
    (reg.rateGet q).2.1 ≤ (reg.rateGet q).2.2
  trend : kind = .trend → row.metricType = "trend".toList ∧
    ∃ live, reg.liveTrend q = some live ∧
      row.values.find? "count".toList = some (live.count : ℚ) ∧
      row.values.find? "avg".toList = some (live.sum / live.count) ∧
      row.values.find? "min".toList = some live.min ∧
      row.values.find? "max".toList = some live.max ∧
      ∃ h, (SubsetTrend.merge query (reg.snapshot durationSecs)).hist = some h ∧
        ∀ i, bucketCount h i = bucketCount live.histogram i

/-- The values of the samples of a trend that match. -/
def matchingValues (query : MetricSelector) (samples : List (Sample ℚ)) : List ℚ :=
  valuesOf (selects query) (samples.filterMap Sample.trendWrite)

/-- The live read of a key counts each sample that matches it once. -/
structure ReadsOnce (samples : List (Sample ℚ)) (reg : MetricsRegistry ℚ H) (q : Str)
    (query : MetricSelector) : Prop where
  counter : reg.counterGet q =
    sumOver (selects query) (fun v => v) (samples.filterMap Sample.counterWrite)
  rate : reg.rateGet q = rateAnswer
    (sumOver (selects query) Bool.toNat (samples.filterMap Sample.rateWrite))
    (sumOver (selects query) (fun _ => 1) (samples.filterMap Sample.rateWrite))
  trend : ∃ l, l.Perm (matchingValues query samples) ∧
    (reg.liveTrend q = none ∧ l = [] ∨
      ∃ u, reg.liveTrend q = some u ∧ Filled TrendMetric.Holds l u)

/-- A tagged threshold key has a row when a sample matches it, and the row is the live read, which
counts each of these samples once. -/
def SubmetricIsLive (kind : MetricKind) (samples : List (Sample ℚ)) (reg : MetricsRegistry ℚ H)
    (durationSecs : ℚ) (q : Str) (query : MetricSelector) (data : SummaryData ℚ) : Prop :=
  (((data.metrics.find? (canonical query)).isSome ↔
      ∃ s ∈ samples, selects query s.selector = true) ∧
    ∀ row, data.metrics.find? (canonical query) = some row →
      RowIsLive kind reg durationSecs q query row) ∧
  ReadsOnce samples reg q query

/-- Some value is below the largest double, and some above the least. -/
def Inside (l : List ℚ) : Prop := (∃ a ∈ l, a < maxDouble) ∧ ∃ a ∈ l, -maxDouble < a

variable {kind : Str → MetricKind} {samples : List (Sample ℚ)} (hs : OneKindEach kind samples)
  {reg : MetricsRegistry ℚ H} (hreg : reg.Reordered (.record samples)) (durationSecs : ℚ)
  {q : Str} {query : MetricSelector} (hq : parse q = .ok query) (htags : query.tags ≠ ∅)

variable (reg) in
omit [BucketHistogram ℚ H] in
/-- The merge of the rows visits the derived trends in the order of their keys. -/
theorem subsetMerge_eq (target : MetricSelector) :
    ∃ rows : KeyMap Str (TrendMetric ℚ H),
      rows.entries.Perm (deriveRows TrendMetric.merge reg.trends).entries ∧
      SubsetTrend.merge target (reg.snapshot durationSecs) =
        ((rows.entries.filter fun e => subsetMatches target e.1).map Prod.snd).foldl
          (fun acc t => acc.add t.stats (some t.histogram)) .new := by
  have hperm : (SortedMap.sortByKey (deriveRows TrendMetric.merge reg.trends).entries).Perm
      (deriveRows TrendMetric.merge reg.trends).entries := List.perm_insertionSort _ _
  refine ⟨⟨SortedMap.sortByKey (deriveRows TrendMetric.merge reg.trends).entries,
    (hperm.map Prod.fst).nodup_iff.mpr (KeyMap.nodup _)⟩, hperm, ?_⟩
  have htrends : (reg.snapshot durationSecs).trends =
      (SortedMap.sortByKey (deriveRows TrendMetric.merge reg.trends).entries).map fun e =>
        (e.1, e.2.stats) := by
    rw [trends_snapshot, SortedMap.sortByKey_map]
  rw [SubsetTrend.merge, htrends, List.filter_map, List.foldl_map, List.foldl_map]
  refine List.foldl_ext _ _ _ fun acc e he => ?_
  have hmem := hperm.mem_iff.mp (List.mem_filter.mp he).1
  rw [find?_trendHistograms, deriveTrends, (KeyMap.find?_eq_some_iff _ e.1 e.2).mpr hmem]
  rfl

include hs hreg hq

/-- The merge of the rows holds the matching values. -/
theorem subsetMerge_holds (htags : query.tags ≠ ∅) : ∃ l, l.Perm (matchingValues query samples) ∧
    (SubsetTrend.merge query (reg.snapshot durationSecs)).Holds l := by
  obtain ⟨rows, hrows, hmerge⟩ := subsetMerge_eq reg durationSecs query
  have hperm := hreg.trends
  rw [MetricsRegistry.trends_record] at hperm
  obtain ⟨ls, hls, hvalues⟩ := TrendMetric.keeps.selected_rows
    (readable_writes hs.readable trendWrite_writesOf) hperm hrows hq htags
  refine ⟨ls.flatten, hvalues, ?_⟩
  rw [hmerge, subsetMatches_eq hq]
  exact SubsetTrend.holds_foldl hls SubsetTrend.holds_new

/-- So does the merge of the cells. -/
theorem liveTrend_holds_values : ∃ l, l.Perm (matchingValues query samples) ∧
    (reg.liveTrend q = none ∧ l = [] ∨
      ∃ u, reg.liveTrend q = some u ∧ Filled TrendMetric.Holds l u) := by
  have hperm := hreg.trends
  rw [MetricsRegistry.trends_record] at hperm
  obtain ⟨ls, hls, hvalues⟩ := TrendMetric.keeps.selected_cells
    (readable_writes hs.readable trendWrite_writesOf) hperm hq
  exact ⟨ls.flatten, hvalues, liveTrend_holds hls⟩

theorem readsOnce : ReadsOnce samples reg q query :=
  ⟨counterGet_eq hs hreg hq, rateGet_eq_rateAnswer hs hreg hq, liveTrend_holds_values hs hreg hq⟩

omit hs hreg hq in
/-- A minimum that was never lowered is shown as zero. -/
theorem shown_min_eq_iff {l : List ℚ} {m : ℚ} (h : ∀ x, x ≤ m ↔ x ≤ maxDouble ∧ ∀ a ∈ l, x ≤ a) :
    (if FloatOps.eq m maxValue = true then zero else m) = m ↔ ∃ a ∈ l, a < maxDouble := by
  have hle : m ≤ maxDouble := ((h m).mp le_rfl).1
  have htop : m = maxDouble ↔ ∀ a ∈ l, maxDouble ≤ a := by
    rw [← (h maxDouble).trans (and_iff_right le_rfl)]
    exact ⟨fun heq => heq.ge, fun hge => le_antisymm hle hge⟩
  have hpos : (0 : ℚ) < maxDouble := maxDouble_pos
  have hshown : (if FloatOps.eq m maxValue = true then zero else m) = m ↔ ¬m = maxDouble := by
    change (if decide (m = maxDouble) = true then (0 : ℚ) else m) = m ↔ _
    simp only [decide_eq_true_eq]
    split
    · rename_i heq
      simp [heq, hpos.ne]
    · rename_i hne
      simp [hne]
  rw [hshown, htop]
  push Not
  rfl

omit hs hreg hq in
theorem shown_max_eq_iff {l : List ℚ} {m : ℚ} (h : ∀ x, m ≤ x ↔ -maxDouble ≤ x ∧ ∀ a ∈ l, a ≤ x) :
    (if FloatOps.eq m minValue = true then zero else m) = m ↔ ∃ a ∈ l, -maxDouble < a := by
  have hle : -maxDouble ≤ m := ((h m).mp le_rfl).1
  have hbot : m = -maxDouble ↔ ∀ a ∈ l, a ≤ -maxDouble := by
    rw [← (h (-maxDouble)).trans (and_iff_right le_rfl)]
    exact ⟨fun heq => heq.le, fun hge => le_antisymm hge hle⟩
  have hpos : (0 : ℚ) < maxDouble := maxDouble_pos
  have hshown : (if FloatOps.eq m minValue = true then zero else m) = m ↔ ¬m = -maxDouble := by
    change (if decide (m = -maxDouble) = true then (0 : ℚ) else m) = m ↔ _
    simp only [decide_eq_true_eq]
    split
    · rename_i heq
      simp [heq, hpos.ne']
    · rename_i hne
      simp [hne]
  rw [hshown, hbot]
  push Not
  rfl

/-- A trend row is the live read exactly when the extrema of the values are inside the doubles. -/
theorem trend_rowIsLive_iff (htags : query.tags ≠ ∅) (hne : matchingValues query samples ≠ []) :
    RowIsLive .trend reg durationSecs q query
        (.ofTrend query.name (SubsetTrend.merge query (reg.snapshot durationSecs)).stats) ↔
      Inside (matchingValues query samples) := by
  obtain ⟨l, hl, hmerge⟩ := subsetMerge_holds hs hreg durationSecs hq htags
  obtain ⟨l', hl', hlive⟩ := liveTrend_holds_values hs hreg hq
  have hnil : l' ≠ [] := fun hnil => hne (List.nil_perm.mp (hnil ▸ hl'))
  have hperm : l.Perm l' := hl.trans hl'.symm
  obtain ⟨u, hu, hfilled⟩ := hlive.resolve_left fun h => hnil h.2
  set acc := SubsetTrend.merge query (reg.snapshot durationSecs) with hacc
  have hcount : acc.count = u.count := by
    rw [hmerge.count, hfilled.2.count, hperm.length_eq]
  have hpos : 0 < acc.count := by
    rw [hcount, hfilled.2.count]
    exact List.length_pos_iff.mpr hnil
  have hsum : acc.sum = u.sum := by rw [hmerge.sum, hfilled.2.sum, hperm.sum_eq]
  have hmin : acc.min = u.min :=
    eq_of_forall_le_iff fun x => by simp only [hmerge.le_min, hfilled.2.le_min, hperm.mem_iff]
  have hmax : acc.max = u.max :=
    eq_of_forall_ge_iff fun x => by simp only [hmerge.max_le, hfilled.2.max_le, hperm.mem_iff]
  have havg : acc.stats.avg = u.sum / u.count := by
    rw [SubsetTrend.stats, ← hcount, ← hsum]
    exact if_pos hpos
  have hinside : Inside (matchingValues query samples) ↔
      acc.stats.min = u.min ∧ acc.stats.max = u.max := by
    rw [← hmin, ← hmax]
    refine and_congr ?_ ?_
    · simp only [← hl.mem_iff]
      exact (shown_min_eq_iff hmerge.le_min).symm
    · simp only [← hl.mem_iff]
      exact (shown_max_eq_iff hmerge.max_le).symm
  rw [hinside]
  constructor
  · intro h
    obtain ⟨-, u', hu', -, -, hrowMin, hrowMax, -⟩ := h.trend rfl
    obtain rfl : u = u' := Option.some_inj.mp (hu.symm.trans hu')
    exact ⟨Option.some_inj.mp hrowMin, Option.some_inj.mp hrowMax⟩
  · rintro ⟨hrowMin, hrowMax⟩
    refine ⟨nofun, nofun, fun _ => ⟨rfl, u, hu, ?_, ?_, ?_, ?_, ?_⟩⟩
    · exact congrArg (fun n : ℕ => some (n : ℚ)) hcount
    · exact congrArg some havg
    · exact congrArg some hrowMin
    · exact congrArg some hrowMax
    · have hsome := hmerge.hist_isSome fun h => hnil (List.nil_perm.mp (h ▸ hperm))
      obtain ⟨h, hh⟩ := Option.isSome_iff_exists.mp hsome
      refine ⟨h, hh, fun i => ?_⟩
      rw [hfilled.2.buckets, ← hperm.countP_eq, ← hmerge.buckets, hh, Option.elim_some]

theorem counter_rowIsLive (htags : query.tags ≠ ∅) (rate : ℚ) :
    RowIsLive .counter reg durationSecs q query
      (.ofCounter (sumOver (selects query) (fun v => v) (samples.filterMap Sample.counterWrite) +
        sumOver (seenAgain query) (fun v => v) (samples.filterMap Sample.counterWrite)) rate) := by
  refine ⟨fun _ => ⟨rfl, ?_⟩, nofun, nofun⟩
  rw [counterGet_eq hs hreg hq, sumOver_seenAgain htags, add_zero]
  rfl

theorem rate_rowIsLive (htags : query.tags ≠ ∅) (rate : ℚ) :
    RowIsLive .rate reg durationSecs q query
      (.ofRate rate
        (sumOver (selects query) Bool.toNat (samples.filterMap Sample.rateWrite) +
          sumOver (seenAgain query) Bool.toNat (samples.filterMap Sample.rateWrite))
        (sumOver (selects query) (fun _ => 1) (samples.filterMap Sample.rateWrite) +
          sumOver (seenAgain query) (fun _ => 1) (samples.filterMap Sample.rateWrite))) := by
  have hle : sumOver (selects query) Bool.toNat (samples.filterMap Sample.rateWrite) ≤
      sumOver (selects query) (fun _ => 1) (samples.filterMap Sample.rateWrite) := by
    refine List.sum_le_sum fun w _ => ?_
    split
    · exact Bool.toNat_le w.2
    · exact le_rfl
  refine ⟨nofun, fun _ => ⟨rfl, ?_, ?_, ?_⟩, nofun⟩
  · rw [rateGet_eq_rateAnswer hs hreg hq, sumOver_seenAgain htags, sumOver_seenAgain htags,
      add_zero, add_zero]
    rfl
  · rw [rateGet_eq_rateAnswer hs hreg hq, sumOver_seenAgain htags, sumOver_seenAgain htags,
      add_zero, add_zero]
    rfl
  · rw [rateGet_eq_rateAnswer hs hreg hq]
    exact hle

/-- The row of a tagged threshold key is the live read of the key, unless it is that of a trend
whose matching values all lie at or beyond one end of the doubles. -/
theorem submetric_isLive_iff (htags : query.tags ≠ ∅) {thresholds : KeyMap Str (List Threshold)}
    (hkey : q ∈ thresholds.entries.map Prod.fst) (md5 : Str → Str) (isTerminal : Bool)
    (groupTree : GroupSnapshot ℚ) (duration : ℚ) :
    SubmetricIsLive (kind query.name) samples reg durationSecs q query
        (buildSummaryData md5 isTerminal (reg.snapshot durationSecs) groupTree duration
          (some thresholds)) ↔
      (kind query.name = .trend → matchingValues query samples ≠ [] →
        Inside (matchingValues query samples)) := by
  rw [SubmetricIsLive, and_iff_left (readsOnce hs hreg hq),
    find?_buildSummaryData _ md5 isTerminal groupTree duration hkey hq htags
      (gauges_snapshot hreg durationSecs)]
  cases hkind : kind query.name with
  | counter =>
      have hall : ∀ s : Sample ℚ, s.kind = .counter → s.counterWrite.isSome := by
        intro s
        rw [Sample.kind, Sample.counterWrite]
        cases s.observation <;> simp
      rw [synthesize_counter hs hreg durationSecs hq hkind,
        exists_selected_iff hs counterWrite_writesOf hall hkind,
        ← counterRows_eq_nil_iff hs hreg durationSecs hq]
      refine iff_of_true ⟨by split <;> simp_all, fun row hrow => ?_⟩ (by rintro ⟨⟩)
      obtain ⟨-, hrow⟩ := Option.ite_none_right_eq_some.mp hrow
      rw [← Option.some_inj.mp hrow]
      exact counter_rowIsLive hs hreg durationSecs hq htags _
  | rate =>
      have hall : ∀ s : Sample ℚ, s.kind = .rate → s.rateWrite.isSome := by
        intro s
        rw [Sample.kind, Sample.rateWrite]
        cases s.observation <;> simp
      rw [synthesize_rate hs hreg durationSecs hq hkind,
        exists_selected_iff hs rateWrite_writesOf hall hkind,
        ← rateRows_eq_nil_iff hs hreg durationSecs hq]
      refine iff_of_true ⟨by split <;> simp_all, fun row hrow => ?_⟩ (by rintro ⟨⟩)
      obtain ⟨-, hrow⟩ := Option.ite_none_right_eq_some.mp hrow
      rw [← Option.some_inj.mp hrow]
      exact rate_rowIsLive hs hreg durationSecs hq htags _
  | trend =>
      have hall : ∀ s : Sample ℚ, s.kind = .trend → s.trendWrite.isSome := by
        intro s
        rw [Sample.kind, Sample.trendWrite]
        cases s.observation <;> simp
      have hvalues : matchingRows q (reg.snapshot durationSecs).trends = [] ↔
          matchingValues query samples = [] := by
        rw [trendRows_eq_nil_iff hs hreg durationSecs hq, matchingValues, valuesOf,
          List.map_eq_nil_iff, List.filter_eq_nil_iff]
        simp
      rw [synthesize_trend hs hreg durationSecs hq hkind,
        exists_selected_iff hs trendWrite_writesOf hall hkind,
        ← trendRows_eq_nil_iff hs hreg durationSecs hq]
      by_cases hne : matchingValues query samples = []
      · simp [hvalues.mpr hne, hne]
      · simp only [ne_eq, hvalues, hne, not_false_eq_true, if_true, Option.isSome_some, true_and,
          forall_const, Option.some.injEq, forall_eq']
        exact trend_rowIsLive_iff hs hreg durationSecs hq htags hne

end Live

section Example

/-- A single tagged sample of the trend `t`. -/
def taggedTrend (value : ℚ) : List (Sample ℚ) :=
  [⟨"t".toList, .pairs [("a".toList, "1".toList)], .trend value⟩]

def trendQuery : MetricSelector := ⟨"t".toList, SortedMap.ofList [("a".toList, "1".toList)]⟩

/-- One threshold key, spelled with a blank. -/
def trendThresholds : KeyMap Str (List Threshold) :=
  ⟨[("t{a: 1}".toList, [⟨"max<1".toList, false, 0⟩])], List.nodup_singleton _⟩

def trendSummary (samples : List (Sample ℚ)) : SummaryData ℚ :=
  buildSummaryData id false
    ((MetricsRegistry.record samples : MetricsRegistry ℚ (List ℕ)).snapshot 1)
    (GroupNode.root (F := ℚ) (H := List ℕ)).snapshot 1 (some trendThresholds)

theorem parse_trendQuery : parse "t{a: 1}".toList = .ok trendQuery := by decide

/-- Another sample has one tag more, and the last has no tag. -/
def tagNestedTrend : List (Sample ℚ) :=
  taggedTrend 5 ++
    [⟨"t".toList, .pairs [("a".toList, "1".toList), ("b".toList, "2".toList)], .trend 7⟩,
      ⟨"t".toList, .pairs [], .trend 9⟩]

theorem oneKind_taggedTrend (value : ℚ) : OneKindEach (fun _ => .trend) (taggedTrend value) where
  readable s hs := by
    obtain rfl := List.mem_singleton.mp hs
    exact parse_canonical_of_parse parse_trendQuery
  kinds s hs := by
    obtain rfl := List.mem_singleton.mp hs
    rfl

theorem oneKind_tagNestedTrend : OneKindEach (fun _ => .trend) tagNestedTrend where
  readable s hs := by
    rcases List.mem_append.mp hs with hs | hs
    · exact (oneKind_taggedTrend 5).readable s hs
    · simp only [List.mem_cons, List.not_mem_nil, or_false] at hs
      rcases hs with rfl | rfl <;> rw [Readable] <;> decide
  kinds s hs := by
    rcases List.mem_append.mp hs with hs | hs
    · exact (oneKind_taggedTrend 5).kinds s hs
    · simp only [List.mem_cons, List.not_mem_nil, or_false] at hs
      rcases hs with rfl | rfl <;> rfl

theorem submetric_isLive_inside :
    SubmetricIsLive .trend tagNestedTrend
        (.record tagNestedTrend : MetricsRegistry ℚ (List ℕ)) 1 "t{a: 1}".toList trendQuery
        (trendSummary tagNestedTrend) ↔
      (MetricKind.trend = .trend → matchingValues trendQuery tagNestedTrend ≠ [] →
        Inside (matchingValues trendQuery tagNestedTrend)) :=
  submetric_isLive_iff oneKind_tagNestedTrend ⟨.rfl, .rfl, .rfl, .rfl⟩ 1 parse_trendQuery
    (by decide) (by decide) id false _ 1

/-- A single sample of the largest double shows a minimum of zero. -/
theorem not_submetric_isLive_largest :
    ¬SubmetricIsLive .trend (taggedTrend maxDouble)
      (.record (taggedTrend maxDouble) : MetricsRegistry ℚ (List ℕ)) 1 "t{a: 1}".toList trendQuery
      (trendSummary (taggedTrend maxDouble)) := by
  have hs := oneKind_taggedTrend maxDouble
  have hreg : (MetricsRegistry.record (taggedTrend maxDouble) :
      MetricsRegistry ℚ (List ℕ)).Reordered
      (.record (taggedTrend maxDouble)) := ⟨.rfl, .rfl, .rfl, .rfl⟩
  have hvalues : matchingValues trendQuery (taggedTrend maxDouble) = [maxDouble] := rfl
  rintro ⟨⟨hsome, hlive⟩, -⟩
  obtain ⟨row, hrow⟩ := Option.isSome_iff_exists.mp (hsome.mpr ⟨_, .head _, by decide⟩)
  have hrowLive := hlive row hrow
  rw [trendSummary, find?_buildSummaryData _ id false _ 1 (by decide) parse_trendQuery (by decide)
    (gauges_snapshot hreg 1), synthesize_trend hs hreg 1 parse_trendQuery rfl,
    Option.ite_none_right_eq_some] at hrow
  rw [← Option.some_inj.mp hrow.2] at hrowLive
  obtain ⟨⟨a, ha, hlt⟩, -⟩ := (trend_rowIsLive_iff hs hreg 1 parse_trendQuery (by decide)
    (by rw [hvalues]; exact List.cons_ne_nil _ _)).mp hrowLive
  rw [hvalues, List.mem_singleton] at ha
  exact hlt.ne ha

end Example

end K6Rs
