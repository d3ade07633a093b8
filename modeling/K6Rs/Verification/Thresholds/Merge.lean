import K6Rs.Model.Thresholds
import K6Rs.Verification.Metrics.Totals

/-! The merge loops of the threshold engine and of the live reads, each as a sum over
the rows or the cells that match. -/

namespace K6Rs

open FloatOps MetricSelector
open scoped UInt64.CommRing

/-- The rows a threshold merges. -/
def matchingRows {μ : Type} (thresholdKey : Str) (rows : List (Str × μ)) : List (Str × μ) :=
  rows.filter fun row => storedIsSubsetMatch thresholdKey row.1

/-! ## Counters -/

section Counters

variable {F H : Type} [FloatOps F]

private theorem foldl_counter_rows (rows : List (Str × UInt64 × F)) (acc : UInt64 × F × Bool) :
    let res := rows.foldl (fun (acc : UInt64 × F × Bool) row =>
      (acc.1 + row.2.1, FloatOps.add acc.2.1 row.2.2, true)) acc
    res.1 = acc.1 + (rows.map fun row => row.2.1).sum ∧ res.2.2 = (acc.2.2 || !rows.isEmpty) := by
  induction rows generalizing acc with
  | nil => simp
  | cons row rows ih =>
      have hrest := ih (acc.1 + row.2.1, FloatOps.add acc.2.1 row.2.2, true)
      refine ⟨?_, ?_⟩
      · rw [List.foldl_cons, hrest.1, List.map_cons, List.sum_cons, add_assoc]
      · rw [List.foldl_cons, hrest.2]
        simp

theorem mergedCounter_eq (thresholdKey : Str) (snapshot : MetricsSnapshot F H) :
    (mergedCounterForThreshold thresholdKey snapshot).map Prod.fst =
      if (matchingRows thresholdKey snapshot.counters).isEmpty then none
      else some ((matchingRows thresholdKey snapshot.counters).map fun row => row.2.1).sum := by
  have hfold := foldl_counter_rows (matchingRows thresholdKey snapshot.counters)
    (0, FloatOps.zero, false)
  rw [mergedCounterForThreshold, ← List.foldl_filter, ← matchingRows]
  generalize (matchingRows thresholdKey snapshot.counters).foldl _ _ = res at hfold ⊢
  obtain ⟨value, rate, had⟩ := res
  simp only [zero_add, Bool.false_or] at hfold
  rw [hfold.1, hfold.2]
  cases (matchingRows thresholdKey snapshot.counters).isEmpty <;> rfl

end Counters

/-! ## Rates -/

section Rates

variable {F H : Type} [FloatOps F]

omit [FloatOps F] in
private theorem foldl_rate_rows (rows : List (Str × F × ℕ × ℕ)) (acc : ℕ × ℕ × Bool) :
    rows.foldl (fun (acc : ℕ × ℕ × Bool) row =>
        (acc.1 + row.2.2.1, acc.2.1 + row.2.2.2, true)) acc =
      (acc.1 + (rows.map fun row => row.2.2.1).sum, acc.2.1 + (rows.map fun row => row.2.2.2).sum,
        acc.2.2 || !rows.isEmpty) := by
  induction rows generalizing acc with
  | nil => simp
  | cons row rows ih => simp [ih, add_assoc]

/-- The answer for a rate with these passes among this total. -/
def rateAnswer (passes total : ℕ) : F × ℕ × ℕ :=
  (if 0 < total then div (ofNat passes) (ofNat total) else zero, passes, total)

theorem mergedRate_eq (thresholdKey : Str) (snapshot : MetricsSnapshot F H) :
    mergedRateForThreshold thresholdKey snapshot =
      if (matchingRows thresholdKey snapshot.rates).isEmpty then none
      else some (rateAnswer
        ((matchingRows thresholdKey snapshot.rates).map fun row => row.2.2.1).sum
        ((matchingRows thresholdKey snapshot.rates).map fun row => row.2.2.2).sum) := by
  rw [mergedRateForThreshold, ← List.foldl_filter, ← matchingRows, foldl_rate_rows]
  cases (matchingRows thresholdKey snapshot.rates).isEmpty <;> simp [rateAnswer]

private theorem foldl_rate_cells (cells : List (Str × RateMetric)) (acc : ℕ × ℕ) :
    cells.foldl (fun (acc : ℕ × ℕ) e => (acc.1 + e.2.passes, acc.2 + e.2.total)) acc =
      (acc.1 + (cells.map fun e => e.2.passes).sum,
        acc.2 + (cells.map fun e => e.2.total).sum) := by
  induction cells generalizing acc with
  | nil => simp
  | cons e cells ih => simp [ih, add_assoc]

theorem rateGet_eq (reg : MetricsRegistry F H) (name : Str) :
    reg.rateGet name = rateAnswer
      (reg.rates.total (fun k => storedMatchesQuery k (parseQuery name) name) RateMetric.passes)
      (reg.rates.total (fun k => storedMatchesQuery k (parseQuery name) name)
        RateMetric.total) := by
  rw [MetricsRegistry.rateGet, ← List.foldl_filter, foldl_rate_cells]
  simp only [zero_add]
  rfl

end Rates

/-! ## Trends -/

section TrendCounts

variable {F H : Type} [FloatOps F] [Histogram F H]

theorem count_merge (t other : TrendMetric F H) :
    (t.merge other).count = t.count + other.count := by
  rw [TrendMetric.merge]
  split
  · rename_i h
    rw [h, add_zero]
  · rfl

theorem count_stats (t : TrendMetric F H) : t.stats.count = t.count := by
  rw [TrendMetric.stats]
  split
  · rename_i h
    exact h.symm
  · rfl

private theorem foldl_mergeInto_count (cells : List (Str × TrendMetric F H)) (t : TrendMetric F H) :
    ∃ u, cells.foldl (fun merged e => MetricsRegistry.mergeInto merged e.2) (some t) = some u ∧
      u.count = t.count + (cells.map fun e => e.2.count).sum := by
  induction cells generalizing t with
  | nil => exact ⟨t, rfl, by simp⟩
  | cons e cells ih =>
      obtain ⟨u, hu, hcount⟩ := ih (t.merge e.2)
      refine ⟨u, hu, ?_⟩
      rw [hcount, count_merge, List.map_cons, List.sum_cons, add_assoc]

/-- The count of a live trend; a query without samples has none. -/
theorem trendStats_count (reg : MetricsRegistry F H) (name : Str) :
    (reg.trendStats name).elim 0 TrendStats.count =
      reg.trends.total (fun k => storedMatchesQuery k (parseQuery name) name)
        TrendMetric.count := by
  rw [MetricsRegistry.trendStats, ← List.foldl_filter, KeyMap.total]
  cases reg.trends.entries.filter fun e => storedMatchesQuery e.1 (parseQuery name) name with
  | nil => rfl
  | cons e cells =>
      obtain ⟨u, hu, hcount⟩ := foldl_mergeInto_count cells e.2
      rw [List.foldl_cons, List.map_cons, List.sum_cons, ← hcount]
      change Option.elim (Option.map _ (cells.foldl _ (some e.2))) _ _ = _
      rw [hu]
      exact count_stats u

end TrendCounts

section Trends

variable {H : Type} [Histogram ℚ H]

/-- The sum of the values behind a trend row. -/
def rowSum (row : Str × TrendStats ℚ) : ℚ := row.2.avg * (row.2.count : ℚ)

private theorem foldl_trend_rows (histograms : Str → Option H)
    (rows : List (Str × TrendStats ℚ)) (acc : TrendAcc ℚ H) :
    let res := rows.foldl (fun (acc : TrendAcc ℚ H) row => acc.add row.2 (histograms row.1)) acc
    res.count = acc.count + (rows.map fun row => row.2.count).sum ∧
      res.sum = acc.sum + (rows.map rowSum).sum ∧
      res.fallback.isSome = (acc.fallback.isSome || !rows.isEmpty) := by
  induction rows generalizing acc with
  | nil => simp
  | cons row rows ih =>
      have hrest := ih (acc.add row.2 (histograms row.1))
      refine ⟨?_, ?_, ?_⟩
      · rw [List.foldl_cons, hrest.1, List.map_cons, List.sum_cons, ← add_assoc]
        rfl
      · rw [List.foldl_cons, hrest.2.1, List.map_cons, List.sum_cons, ← add_assoc]
        rfl
      · rw [List.foldl_cons, hrest.2.2]
        cases hfb : acc.fallback <;> simp [TrendAcc.add, hfb]

theorem mergedTrend_isSome (thresholdKey : Str) (snapshot : MetricsSnapshot ℚ H) :
    (mergedTrendForThreshold thresholdKey snapshot).isSome =
      !(matchingRows thresholdKey snapshot.trends).isEmpty := by
  have hfold := foldl_trend_rows (fun name => snapshot.trendHistograms.find? name)
    (matchingRows thresholdKey snapshot.trends) (TrendAcc.new (F := ℚ) (H := H))
  rw [mergedTrendForThreshold, ← List.foldl_filter, ← matchingRows]
  rw [Option.isSome_map, hfold.2.2]
  rfl

/-- The count and the average of the merged rows. -/
theorem mergedTrend_count_avg {thresholdKey : Str} {snapshot : MetricsSnapshot ℚ H}
    {t : MergedTrend ℚ H} (h : mergedTrendForThreshold thresholdKey snapshot = some t) :
    t.count = ((matchingRows thresholdKey snapshot.trends).map fun row => row.2.count).sum ∧
      t.avg = if 0 < t.count then
          ((matchingRows thresholdKey snapshot.trends).map rowSum).sum / (t.count : ℚ)
        else 0 := by
  have hfold := foldl_trend_rows (fun name => snapshot.trendHistograms.find? name)
    (matchingRows thresholdKey snapshot.trends) (TrendAcc.new (F := ℚ) (H := H))
  rw [mergedTrendForThreshold, ← List.foldl_filter, ← matchingRows] at h
  generalize (matchingRows thresholdKey snapshot.trends).foldl _ _ = acc at hfold h
  obtain ⟨fb, -, rfl⟩ := Option.map_eq_some_iff.mp h
  simp only [TrendAcc.new, zero_add, zero_rat] at hfold
  simp only [zero_rat, div_rat, ofNat_rat]
  rw [← hfold.1, ← hfold.2.1]
  exact ⟨rfl, rfl⟩

theorem sum_merge (t other : TrendMetric ℚ H) : (t.merge other).sum = t.sum + other.sum := by
  rw [TrendMetric.merge]
  split
  · rename_i h
    rw [other.sum_of_count_eq_zero h, zero_rat, add_zero]
  · rfl

/-- The average of a trend is exact, and zero samples have average zero. -/
theorem avg_stats (t : TrendMetric ℚ H) :
    t.stats.count = t.count ∧ t.stats.avg = if 0 < t.count then t.sum / (t.count : ℚ) else 0 := by
  rw [TrendMetric.stats]
  split
  · rename_i h
    simp [TrendStats.default, h]
  · rename_i h
    simp [Nat.pos_of_ne_zero h]

theorem avg_mul_count_stats (t : TrendMetric ℚ H) :
    t.stats.avg * (t.stats.count : ℚ) = t.sum := by
  rw [(avg_stats t).1, (avg_stats t).2]
  cases Nat.eq_zero_or_pos t.count with
  | inl h => simp [h, t.sum_of_count_eq_zero h]
  | inr h =>
      rw [if_pos h]
      exact div_mul_cancel₀ _ (by exact_mod_cast h.ne')

private theorem foldl_mergeInto (cells : List (Str × TrendMetric ℚ H)) (t : TrendMetric ℚ H) :
    ∃ u, cells.foldl (fun merged e => MetricsRegistry.mergeInto merged e.2) (some t) = some u ∧
      u.count = t.count + (cells.map fun e => e.2.count).sum ∧
      u.sum = t.sum + (cells.map fun e => e.2.sum).sum := by
  induction cells generalizing t with
  | nil => exact ⟨t, rfl, by simp, by simp⟩
  | cons e cells ih =>
      obtain ⟨u, hu, hcount, hsum⟩ := ih (t.merge e.2)
      refine ⟨u, hu, ?_, ?_⟩
      · rw [hcount, count_merge, List.map_cons, List.sum_cons, add_assoc]
      · rw [hsum, sum_merge, List.map_cons, List.sum_cons, add_assoc]

/-- The count and the average of a live trend; a query without samples has neither. -/
theorem trendStats_count_avg (reg : MetricsRegistry ℚ H) (name : Str) :
    let live := fun k => storedMatchesQuery k (parseQuery name) name
    let count := reg.trends.total live TrendMetric.count
    let sum := reg.trends.total live TrendMetric.sum
    (reg.trendStats name).elim 0 TrendStats.count = count ∧
      (reg.trendStats name).elim 0 TrendStats.avg = if 0 < count then sum / (count : ℚ) else 0 := by
  intro live count sum
  rw [MetricsRegistry.trendStats, ← List.foldl_filter]
  change _ = ((reg.trends.entries.filter fun e => live e.1).map fun e => e.2.count).sum ∧ _
  have hcount : count = ((reg.trends.entries.filter fun e => live e.1).map fun e =>
      e.2.count).sum :=
    rfl
  have hsum : sum = ((reg.trends.entries.filter fun e => live e.1).map fun e => e.2.sum).sum := rfl
  rw [← hcount]
  change Option.elim (Option.map _ (List.foldl _ _ (reg.trends.entries.filter fun e => live e.1)))
      _ _
    = _ ∧ Option.elim (Option.map _
      (List.foldl _ _ (reg.trends.entries.filter fun e => live e.1))) _ _
    = _
  cases hcells : reg.trends.entries.filter fun e => live e.1 with
  | nil =>
      rw [hcells] at hcount hsum
      simp [hcount]
  | cons e cells =>
      obtain ⟨u, hu, hucount, husum⟩ := foldl_mergeInto cells e.2
      rw [hcells, List.map_cons, List.sum_cons, ← hucount] at hcount
      rw [hcells, List.map_cons, List.sum_cons, ← husum] at hsum
      rw [List.foldl_cons]
      change Option.elim (Option.map _ (cells.foldl _ (some e.2))) _ _ = _ ∧
        Option.elim (Option.map _ (cells.foldl _ (some e.2))) _ _ = _
      rw [hu, hcount, hsum]
      exact avg_stats u

end Trends

end K6Rs
