import K6Rs.Library.Double
import K6Rs.Verification.Metrics.Totals

/-! The gauges of the registry. The extrema of a gauge are kept by the order of the bit patterns of
its values, in which the values with a sign come last and in the order of their magnitudes. -/

namespace K6Rs

open FloatOps

/-! ## Histories of writes -/

/-- A sample, or the value of a gauge. -/
inductive Write (F : Type) where
  | sample (s : Sample F)
  | gauge (name : Str) (value : F)

section Histories

variable {F H : Type} [FloatOps F] [FloatBits F] [Histogram F H]

def MetricsRegistry.apply (reg : MetricsRegistry F H) : Write F → MetricsRegistry F H
  | .sample s => reg.write s
  | .gauge name value => reg.gaugeSet name value

/-- The registry after a history of writes. -/
def MetricsRegistry.recordAll (ws : List (Write F)) : MetricsRegistry F H := ws.foldl apply new

theorem recordAll_concat (ws : List (Write F)) (w : Write F) :
    (MetricsRegistry.recordAll (ws ++ [w]) : MetricsRegistry F H) =
      (MetricsRegistry.recordAll ws).apply w := by
  simp [MetricsRegistry.recordAll]

omit [FloatBits F] in
theorem gauges_write (reg : MetricsRegistry F H) (s : Sample F) :
    (reg.write s).gauges = reg.gauges := by
  rw [MetricsRegistry.write_eq]
  cases s.observation <;> rfl

/-- The values that a history writes to a gauge. -/
def gaugeValues (name : Str) (ws : List (Write F)) : List F :=
  ws.filterMap fun
    | .gauge name' value => if name' = name then some value else none
    | .sample _ => none

/-- A gauge sees the values written to its name only, in their order. -/
theorem find?_gauges_recordAll (name : Str) (ws : List (Write F)) :
    (MetricsRegistry.recordAll ws : MetricsRegistry F H).gauges.find? name =
      (gaugeValues name ws).foldl (fun g value => some (GaugeMetric.set g value)) none := by
  induction ws using List.reverseRecOn with
  | nil => rfl
  | append_singleton ws w ih =>
      rw [recordAll_concat, gaugeValues, List.filterMap_append, List.foldl_append, ← gaugeValues]
      cases w with
      | sample s =>
          rw [MetricsRegistry.apply, gauges_write, ih]
          rfl
      | gauge name' value =>
          rw [MetricsRegistry.apply, MetricsRegistry.gaugeSet]
          by_cases hname : name' = name
          · subst hname
            simp [ih]
          · rw [KeyMap.find?_upsert_of_ne _ _ (Ne.symm hname), ih]
            simp [hname]

/-- The row of a gauge in the snapshot. -/
def MetricsSnapshot.gaugeRow (snapshot : MetricsSnapshot F H) (name : Str) : Option (F × F × F) :=
  (snapshot.gauges.find? fun row => row.1 = name).map Prod.snd

omit [FloatBits F] in
theorem gaugeRow_snapshot (reg : MetricsRegistry F H) (durationSecs : F) (name : Str) :
    (reg.snapshot durationSecs).gaugeRow name =
      (reg.gauges.find? name).map fun g => (g.value, g.min, g.max) := by
  have hrow := find?_sortByKey reg.gauges (fun g => (g.value, g.min, g.max)) name
  rw [MetricsSnapshot.gaugeRow, MetricsRegistry.snapshot, hrow, Option.map_map]
  rfl

end Histories

/-! ## Extrema by bit patterns -/

/-- The gauge keeps the last value and the extrema in the order of the bit patterns. -/
structure GaugeMetric.Keeps (values : List Double) (g : GaugeMetric Double) : Prop where
  value : values.getLast? = some g.value
  min_mem : g.min ∈ values
  min_le : ∀ v ∈ values, g.min.bits ≤ v.bits
  max_mem : g.max ∈ values
  le_max : ∀ v ∈ values, v.bits ≤ g.max.bits

theorem GaugeMetric.keeps_set_none (value : Double) :
    Keeps [value] (GaugeMetric.set none value) where
  value := rfl
  min_mem := List.mem_singleton_self value
  min_le v hv := by rw [List.mem_singleton.mp hv]; rfl
  max_mem := List.mem_singleton_self value
  le_max v hv := by rw [List.mem_singleton.mp hv]; rfl

theorem GaugeMetric.Keeps.set {values : List Double} {g : GaugeMetric Double} (h : Keeps values g)
    (value : Double) : Keeps (values ++ [value]) (GaugeMetric.set (some g) value) := by
  have hmin : (GaugeMetric.set (some g) value).min =
      if value.bits < g.min.bits then value else g.min :=
    if_congr decide_eq_true_iff rfl rfl
  have hmax : (GaugeMetric.set (some g) value).max =
      if g.max.bits < value.bits then value else g.max :=
    if_congr decide_eq_true_iff rfl rfl
  refine ⟨by simp [GaugeMetric.set], ?_, fun v hv => ?_, ?_, fun v hv => ?_⟩
  · rw [hmin]
    split <;> simp [h.min_mem]
  · rw [hmin]
    rcases List.mem_append.mp hv with hv | hv
    · have hle := h.min_le v hv
      split <;> omega
    · rw [List.mem_singleton.mp hv]
      split <;> omega
  · rw [hmax]
    split <;> simp [h.max_mem]
  · rw [hmax]
    rcases List.mem_append.mp hv with hv | hv
    · have hle := h.le_max v hv
      split <;> omega
    · rw [List.mem_singleton.mp hv]
      split <;> omega

theorem foldl_set_keeps {values : List Double} (h : values ≠ []) :
    ∃ g, values.foldl (fun g value => some (GaugeMetric.set g value)) none = some g ∧
      g.Keeps values := by
  induction values using List.reverseRecOn with
  | nil => exact absurd rfl h
  | append_singleton values value ih =>
      rw [List.foldl_append]
      rcases List.eq_nil_or_concat values with rfl | hcons
      · exact ⟨_, rfl, GaugeMetric.keeps_set_none value⟩
      · obtain ⟨g, hg, hkeeps⟩ := ih (by
          obtain ⟨init, last, rfl⟩ := hcons
          simp)
        rw [hg]
        exact ⟨_, rfl, hkeeps.set value⟩

/-- The row shows the last value, and the least and the greatest. -/
structure ReportsExtrema (values : List Double) (row : Double × Double × Double) : Prop where
  value : values.getLast? = some row.1
  min_mem : row.2.1 ∈ values
  min_le : ∀ v ∈ values, le row.2.1 v = true
  max_mem : row.2.2 ∈ values
  le_max : ∀ v ∈ values, le v row.2.2 = true

theorem reportsExtrema_iff {values : List Double} (hfinite : ∀ v ∈ values, v.IsFinite)
    {g : GaugeMetric Double} (h : g.Keeps values) :
    ReportsExtrema values (g.value, g.min, g.max) ↔
      (∀ v ∈ values, v.signBit = false) ∨ ∀ v ∈ values, ∀ w ∈ values, eq v w = true := by
  obtain ⟨m, hm, hmin⟩ := Double.bits_rank (hfinite _ h.min_mem)
  obtain ⟨n, hn, hmax⟩ := Double.bits_rank (hfinite _ h.max_mem)
  constructor
  · intro hrow
    have hbetween : ∀ v ∈ values, g.min.rank ≤ v.rank ∧ v.rank ≤ g.max.rank := fun v hv =>
      ⟨(Double.le_iff_rank (hfinite _ h.min_mem) (hfinite v hv)).mp (hrow.min_le v hv),
        (Double.le_iff_rank (hfinite v hv) (hfinite _ h.max_mem)).mp (hrow.le_max v hv)⟩
    by_cases hsign : ∀ v ∈ values, v.signBit = false
    · exact .inl hsign
    · -- With a sign among the values, all of them have the place of the reported minimum.
      push Not at hsign
      obtain ⟨u, hu, husign⟩ := hsign
      have hrank : ∀ v ∈ values, v.rank = g.min.rank := by
        intro v hv
        obtain ⟨k, hk, hubits⟩ := Double.bits_rank (hfinite u hu)
        obtain ⟨l, hl, hvbits⟩ := Double.bits_rank (hfinite v hv)
        have hminu := h.min_le u hu
        have hmaxu := h.le_max u hu
        have hminv := h.min_le v hv
        have hru := hbetween u hu
        have hrv := hbetween v hv
        have hsigned : u.signBit = true := by simpa using husign
        rcases hubits with ⟨hfalse, -⟩ | ⟨-, hubits, hurank⟩
        · rw [hfalse] at hsigned
          cases hsigned
        · omega
      refine .inr fun v hv w hw => ?_
      rw [Double.eq_iff_rank (hfinite v hv) (hfinite w hw), hrank v hv, hrank w hw]
  · intro hgood
    refine ⟨h.value, h.min_mem, fun v hv => ?_, h.max_mem, fun v hv => ?_⟩
    · rw [Double.le_iff_rank (hfinite _ h.min_mem) (hfinite v hv)]
      rcases hgood with hsign | heq
      · obtain ⟨l, -, hvbits⟩ := Double.bits_rank (hfinite v hv)
        have hle := h.min_le v hv
        have hv' := hsign v hv
        have hmin' := hsign _ h.min_mem
        simp only [hv', hmin', Bool.false_eq_true, false_and, or_false, true_and] at hvbits hmin
        omega
      · exact ((Double.eq_iff_rank (hfinite _ h.min_mem) (hfinite v hv)).mp
          (heq _ h.min_mem v hv)).le
    · rw [Double.le_iff_rank (hfinite v hv) (hfinite _ h.max_mem)]
      rcases hgood with hsign | heq
      · obtain ⟨l, -, hvbits⟩ := Double.bits_rank (hfinite v hv)
        have hle := h.le_max v hv
        have hv' := hsign v hv
        have hmax' := hsign _ h.max_mem
        simp only [hv', hmax', Bool.false_eq_true, false_and, or_false, true_and] at hvbits hmax
        omega
      · exact ((Double.eq_iff_rank (hfinite v hv) (hfinite _ h.max_mem)).mp
          (heq v hv _ h.max_mem)).le

section Snapshot

variable {H : Type} [Histogram Double H]

/-- A gauge reports its extrema exactly when none of its values has a sign, or all are equal. -/
theorem gauge_reportsExtrema_iff (name : Str) (ws : List (Write Double)) (durationSecs : Double)
    (hne : gaugeValues name ws ≠ []) (hfinite : ∀ v ∈ gaugeValues name ws, v.IsFinite) :
    (∃ row, ((MetricsRegistry.recordAll ws : MetricsRegistry Double H).snapshot
        durationSecs).gaugeRow name = some row ∧ ReportsExtrema (gaugeValues name ws) row) ↔
      (∀ v ∈ gaugeValues name ws, v.signBit = false) ∨
        ∀ v ∈ gaugeValues name ws, ∀ w ∈ gaugeValues name ws, eq v w = true := by
  obtain ⟨g, hg, hkeeps⟩ := foldl_set_keeps hne
  rw [gaugeRow_snapshot, find?_gauges_recordAll, hg, ← reportsExtrema_iff hfinite hkeeps]
  simp

end Snapshot

section Example

/-- Writes of integers to the gauge `g`. -/
def gaugeWrites (values : List ℤ) : List (Write Double) :=
  values.map fun v => .gauge "g".toList (ofRat v)

instance : Histogram Double Unit where
  new := ()
  record _ _ := ()
  add _ _ := ()
  len _ := 0
  valueAtQuantile _ _ := 0

theorem gauge_reportsExtrema_counts :
    (∃ row, ((MetricsRegistry.recordAll (gaugeWrites [3, 7, 5]) :
        MetricsRegistry Double Unit).snapshot (ofNat 1)).gaugeRow "g".toList = some row ∧
        ReportsExtrema (gaugeValues "g".toList (gaugeWrites [3, 7, 5])) row) ↔
      (∀ v ∈ gaugeValues "g".toList (gaugeWrites [3, 7, 5]), v.signBit = false) ∨
        ∀ v ∈ gaugeValues "g".toList (gaugeWrites [3, 7, 5]),
          ∀ w ∈ gaugeValues "g".toList (gaugeWrites [3, 7, 5]), eq v w = true :=
  gauge_reportsExtrema_iff (H := Unit) _ _ _ (by decide +kernel) (by decide +kernel)

/-- After `-1` and `1` the minimum is shown as `1`. -/
theorem not_gauge_reportsExtrema_signed :
    ¬∃ row, ((MetricsRegistry.recordAll (gaugeWrites [-1, 1]) :
        MetricsRegistry Double Unit).snapshot (ofNat 1)).gaugeRow "g".toList = some row ∧
        ReportsExtrema (gaugeValues "g".toList (gaugeWrites [-1, 1])) row := by
  rintro ⟨row, hrow, hreports⟩
  have hshown : ((MetricsRegistry.recordAll (gaugeWrites [-1, 1]) :
      MetricsRegistry Double Unit).snapshot (ofNat 1)).gaugeRow "g".toList =
        some (ofRat 1, ofRat 1, ofRat (-1)) := by
    decide +kernel
  rw [hshown] at hrow
  obtain rfl := Option.some.inj hrow
  have hle := hreports.min_le (ofRat (-1)) (by decide +kernel)
  revert hle
  decide +kernel

end Example

end K6Rs
