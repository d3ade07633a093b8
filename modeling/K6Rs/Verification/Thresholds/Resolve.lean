import K6Rs.Verification.Thresholds.Merge

/-! What the threshold engine resolves from a snapshot, against what the live registry
answers. A bare query matches the tagged rows of a snapshot and the untagged row that
was derived from them, so the engine sees every tagged sample of the metric twice. -/

namespace K6Rs

open FloatOps MetricSelector

/-! ## Samples and queries -/

inductive MetricKind where
  | counter
  | rate
  | trend
  deriving DecidableEq

def Sample.kind {F : Type} (s : Sample F) : MetricKind :=
  match s.observation with
  | .counter _ => .counter
  | .rate _ => .rate
  | .trend _ => .trend

/-- A selector that the parser reads back unchanged. -/
def Readable (sel : MetricSelector) : Prop := parse (canonical sel) = .ok sel

/-- A sample of the metric of the query with every tag of the query. -/
def selects (query sel : MetricSelector) : Bool :=
  sel.name == query.name && tagsMatch query.tags sel.tags

/-- A tagged sample of the metric of a bare query. -/
def seenAgain (query sel : MetricSelector) : Bool :=
  query.tags.isEmpty && (sel.name == query.name && !sel.tags.isEmpty)

theorem parse_name {sel : MetricSelector} (h : Readable sel) :
    parse sel.name = .ok ⟨sel.name, ∅⟩ := by
  have hwf := wellFormed_of_parse h
  have hbare : WellFormed ⟨sel.name, ∅⟩ :=
    ⟨hwf.name_ne_nil, hwf.name_trimmed, hwf.name_clean, fun a ha => by simp at ha⟩
  exact parse_canonical hbare

theorem tagsMatch_self (tags : TagMap) : tagsMatch tags tags = true := by
  rw [tagsMatch, List.all_eq_true]
  intro a ha
  rw [(tags.find?_eq_some_iff a.1 a.2).mpr ha, beq_self_eq_true]

theorem tagsMatch_empty (tags : TagMap) : tagsMatch tags ∅ = tags.isEmpty := by
  rw [tagsMatch, SortedMap.isEmpty]
  cases tags.entries <;> simp

theorem selects_of_seenAgain {query sel : MetricSelector} (h : seenAgain query sel = true) :
    selects query sel = true := by
  obtain ⟨hbare, hname⟩ := Bool.and_eq_true_iff.mp h
  rw [SortedMap.isEmpty_iff] at hbare
  rw [selects, (Bool.and_eq_true_iff.mp hname).1, hbare]
  rfl

section Rows

variable {q : Str} {query : MetricSelector} (hq : parse q = .ok query)

include hq

theorem storedIsSubsetMatch_of_parse {stored : Str} {sel : MetricSelector}
    (h : parse stored = .ok sel) : storedIsSubsetMatch q stored = selects query sel := by
  rw [storedIsSubsetMatch, hq, h]
  rfl

theorem storedMatchesQuery_of_parse {stored : Str} {sel : MetricSelector}
    (h : parse stored = .ok sel) :
    storedMatchesQuery stored (parseQuery q) q = selects query sel := by
  rw [parseQuery, hq]
  simp only [Except.toOption, storedMatchesQuery, h]
  rfl

/-- A row with the canonical name of the query is one of the rows that are merged. -/
theorem storedIsSubsetMatch_of_metricNamesMatch {stored : Str} {sel : MetricSelector}
    (h : parse stored = .ok sel) (hname : metricNamesMatch q stored = true) :
    storedIsSubsetMatch q stored = true := by
  have hsel : sel = query := by
    rw [metricNamesMatch, hq, h] at hname
    rcases Bool.or_eq_true_iff.mp hname with heq | heq
    · rw [← beq_iff_eq.mp heq, hq] at h
      exact (Except.ok.inj h).symm
    · have hround := parse_canonical_of_parse hq
      rw [beq_iff_eq.mp heq, parse_canonical_of_parse h] at hround
      exact Except.ok.inj hround
  rw [storedIsSubsetMatch_of_parse hq h, hsel, selects, tagsMatch_self]
  simp

end Rows

/-! ## One store under two reads -/

/-- A store whose cells are those of a list of writes to readable selectors. -/
structure HoldsWrites {ν α : Type} (stored : KeyMap Str ν) (ws : List (MetricSelector × α)) :
    Prop where
  readable : ∀ w ∈ ws, Readable w.1
  keys : ∀ k, k ∈ stored.entries.map Prod.fst ↔ ∃ w ∈ ws, canonical w.1 = k

/-- The sum over the writes whose selector meets `p`. -/
def sumOver {α M : Type} [Zero M] [Add M] (p : MetricSelector → Bool) (amount : α → M)
    (ws : List (MetricSelector × α)) : M :=
  (ws.map fun w => if p w.1 then amount w.2 else 0).sum

theorem sumOver_congr {α M : Type} [Zero M] [Add M] {p p' : MetricSelector → Bool} (amount : α → M)
    (ws : List (MetricSelector × α)) (h : ∀ w ∈ ws, p w.1 = p' w.1) :
    sumOver p amount ws = sumOver p' amount ws := by
  rw [sumOver, sumOver]
  congr 1
  apply List.map_congr_left
  intro w hw
  rw [h w hw]

section Store

variable {ν α μ M : Type} [AddCommMonoid M] {stored : KeyMap Str ν}
  {ws : List (MetricSelector × α)} {q : Str} {query : MetricSelector}

theorem passThrough_canonical {sel : MetricSelector} (h : Readable sel) :
    passThrough (canonical sel) = canonical sel := by
  rw [passThrough, h]

theorem untaggedRow_canonical {sel : MetricSelector} (h : Readable sel) :
    untaggedRow (canonical sel) = if sel.tags.isEmpty then none else some sel.name := by
  rw [untaggedRow, h]

/-- The live read sums the selected writes. -/
theorem total_live (hq : parse q = .ok query) (h : HoldsWrites stored ws) (g : ν → M) (d : α → M)
    (htotal : ∀ p : Str → Bool, stored.total p g =
      (ws.map fun w => if p (canonical w.1) then d w.2 else 0).sum) :
    stored.total (fun k => storedMatchesQuery k (parseQuery q) q) g =
      sumOver (selects query) d ws := by
  rw [htotal]
  apply sumOver_congr (p := fun sel => storedMatchesQuery (canonical sel) (parseQuery q) q)
  intro w hw
  exact storedMatchesQuery_of_parse hq (h.readable w hw)

/-- The engine sums the selected writes and, for a bare query, the tagged ones again. -/
theorem total_engine (hq : parse q = .ok query) (h : HoldsWrites stored ws) (merge : ν → ν → ν)
    (g : ν → M) (hmerge : ∀ a b, g (merge a b) = g a + g b) (d : α → M)
    (htotal : ∀ p : Str → Bool, stored.total p g =
      (ws.map fun w => if p (canonical w.1) then d w.2 else 0).sum) :
    (deriveRows merge stored).total (storedIsSubsetMatch q) g =
      sumOver (selects query) d ws + sumOver (seenAgain query) d ws := by
  rw [total_deriveRows merge stored _ g hmerge, htotal, htotal]
  congr 1
  · apply sumOver_congr (p := fun sel => storedIsSubsetMatch q (passThrough (canonical sel)))
    intro w hw
    rw [passThrough_canonical (h.readable w hw)]
    exact storedIsSubsetMatch_of_parse hq (h.readable w hw)
  · apply sumOver_congr
      (p := fun sel => (untaggedRow (canonical sel)).any (storedIsSubsetMatch q))
    intro w hw
    have hread := h.readable w hw
    rw [untaggedRow_canonical hread, seenAgain]
    cases htags : w.1.tags.isEmpty with
    | true => simp
    | false =>
        simp [storedIsSubsetMatch_of_parse hq (parse_name hread), selects, tagsMatch_empty,
          Bool.and_comm]

/-- The live read adds up the selected writes; the engine adds up those and the ones it
sees again. -/
structure ReadsAddUp (stored : KeyMap Str ν) (merge : ν → ν → ν) (g : ν → M)
    (ws : List (MetricSelector × α)) (d : α → M) (q : Str) (query : MetricSelector) : Prop where
  live : stored.total (fun k => storedMatchesQuery k (parseQuery q) q) g =
    sumOver (selects query) d ws
  engine : (deriveRows merge stored).total (storedIsSubsetMatch q) g =
    sumOver (selects query) d ws + sumOver (seenAgain query) d ws

/-- A store that holds recorded cells in any order. -/
theorem readsAddUp {stored' : KeyMap Str ν} (hq : parse q = .ok query)
    (h : HoldsWrites stored ws) (hperm : stored.entries.Perm stored'.entries)
    (merge : ν → ν → ν) (g : ν → M) (hmerge : ∀ a b, g (merge a b) = g a + g b) (d : α → M)
    (hrecord : ∀ p : Str → Bool, stored'.total p g =
      (ws.map fun w => if p (canonical w.1) then d w.2 else 0).sum) :
    ReadsAddUp stored merge g ws d q query := by
  have htotal : ∀ p : Str → Bool, stored.total p g =
      (ws.map fun w => if p (canonical w.1) then d w.2 else 0).sum := by
    intro p
    rw [KeyMap.total_perm hperm, hrecord]
  exact ⟨total_live hq h g d htotal, total_engine hq h merge g hmerge d htotal⟩

/-- Every derived row is the canonical form of a readable selector with the name of a
written metric. -/
theorem exists_of_derived_row (h : HoldsWrites stored ws) (merge : ν → ν → ν) {row : Str}
    (hrow : row ∈ (deriveRows merge stored).entries.map Prod.fst) :
    ∃ w ∈ ws, ∃ sel, parse row = .ok sel ∧ (sel = w.1 ∨ sel = ⟨w.1.name, ∅⟩) := by
  obtain ⟨k, hk, hrow⟩ := (mem_keys_deriveRows merge stored row).mp hrow
  obtain ⟨w, hw, rfl⟩ := (h.keys k).mp hk
  have hread := h.readable w hw
  refine ⟨w, hw, ?_⟩
  rcases hrow with hrow | hrow
  · rw [hrow, passThrough_canonical hread]
    exact ⟨w.1, hread, .inl rfl⟩
  · rw [untaggedRow_canonical hread, Option.ite_none_left_eq_some, Option.some.injEq] at hrow
    rw [← hrow.2]
    exact ⟨_, parse_name hread, .inr rfl⟩

theorem matchingRows_sortByKey_eq_nil_iff (m : KeyMap Str ν) (f : ν → μ) :
    matchingRows q (SortedMap.sortByKey (m.entries.map fun e => (e.1, f e.2))) = [] ↔
      ∀ row ∈ m.entries.map Prod.fst, storedIsSubsetMatch q row = false := by
  rw [matchingRows, List.filter_eq_nil_iff]
  simp only [mem_sortByKey, List.mem_map, Bool.not_eq_true]
  constructor
  · rintro h row ⟨e, he, rfl⟩
    exact h (e.1, f e.2) ⟨e, he, rfl⟩
  · rintro h row ⟨e, he, rfl⟩
    exact h e.1 ⟨e, he, rfl⟩

/-- The merged rows add up to the derived cells that match. -/
theorem sum_matchingRows (m : KeyMap Str ν) (f : ν → μ) (value : Str × μ → M) (g : ν → M)
    (hg : ∀ k v, value (k, f v) = g v) :
    ((matchingRows q (SortedMap.sortByKey (m.entries.map fun e => (e.1, f e.2)))).map value).sum =
      m.total (storedIsSubsetMatch q) g := by
  have hperm : (SortedMap.sortByKey (m.entries.map fun e => (e.1, f e.2))).Perm
      (m.entries.map fun e => (e.1, f e.2)) := List.perm_insertionSort _ _
  rw [matchingRows, ((hperm.filter _).map value).sum_eq, KeyMap.total, List.filter_map,
    List.map_map]
  congr 1
  apply List.map_congr_left
  intro e _
  exact hg e.1 e.2

/-- Some derived row matches when some write is selected. -/
theorem matchingRows_derived_eq_nil_iff (hq : parse q = .ok query) (h : HoldsWrites stored ws)
    (merge : ν → ν → ν) (f : ν → μ) :
    matchingRows q
        (SortedMap.sortByKey ((deriveRows merge stored).entries.map fun e => (e.1, f e.2))) = [] ↔
      ∀ w ∈ ws, selects query w.1 = false := by
  rw [matchingRows_sortByKey_eq_nil_iff]
  constructor
  · intro hrows w hw
    have hread := h.readable w hw
    have hrow : canonical w.1 ∈ (deriveRows merge stored).entries.map Prod.fst :=
      (mem_keys_deriveRows merge stored _).mpr
        ⟨_, (h.keys _).mpr ⟨w, hw, rfl⟩, .inl (passThrough_canonical hread).symm⟩
    rw [← storedIsSubsetMatch_of_parse hq hread]
    exact hrows _ hrow
  · intro hws row hrow
    obtain ⟨w, hw, sel, hparse, hsel⟩ := exists_of_derived_row h merge hrow
    rw [storedIsSubsetMatch_of_parse hq hparse]
    cases hsel with
    | inl hsel => rw [hsel]; exact hws w hw
    | inr hsel =>
        have hnot := hws w hw
        rw [hsel]
        rw [selects, Bool.and_eq_false_iff] at hnot ⊢
        rcases hnot with hname | htags
        · exact .inl hname
        · right
          rw [tagsMatch_empty]
          cases hbare : query.tags.isEmpty with
          | false => rfl
          | true =>
              rw [SortedMap.isEmpty_iff] at hbare
              rw [hbare] at htags
              exact htags

end Store

/-! ## Histories of writes -/

section History

variable {F H : Type} [FloatOps F]

/-- The same cells, iterated in another order. -/
structure MetricsRegistry.Reordered (reg reg' : MetricsRegistry F H) : Prop where
  counters : reg.counters.entries.Perm reg'.counters.entries
  gauges : reg.gauges.entries.Perm reg'.gauges.entries
  rates : reg.rates.entries.Perm reg'.rates.entries
  trends : reg.trends.entries.Perm reg'.trends.entries

end History

/-- Writes to readable selectors that use each metric name with one kind. -/
structure OneKindEach {F : Type} (kind : Str → MetricKind) (samples : List (Sample F)) : Prop where
  readable : ∀ s ∈ samples, Readable s.selector
  kinds : ∀ s ∈ samples, s.kind = kind s.name

section Writes

variable {F ν α : Type} {part : Sample F → Option (MetricSelector × α)} {k : MetricKind}

/-- The writes to one store are those of the samples of one kind. -/
def WritesOf (part : Sample F → Option (MetricSelector × α)) (k : MetricKind) : Prop :=
  ∀ s w, part s = some w → s.selector = w.1 ∧ s.kind = k

theorem counterWrite_writesOf : WritesOf (F := F) Sample.counterWrite .counter := by
  intro s w h
  rw [Sample.counterWrite] at h
  rw [Sample.kind]
  cases hobs : s.observation <;> simp_all [Prod.ext_iff]

theorem rateWrite_writesOf : WritesOf (F := F) Sample.rateWrite .rate := by
  intro s w h
  rw [Sample.rateWrite] at h
  rw [Sample.kind]
  cases hobs : s.observation <;> simp_all [Prod.ext_iff]

theorem trendWrite_writesOf : WritesOf (F := F) Sample.trendWrite .trend := by
  intro s w h
  rw [Sample.trendWrite] at h
  rw [Sample.kind]
  cases hobs : s.observation <;> simp_all [Prod.ext_iff]

variable {kind : Str → MetricKind} {samples : List (Sample F)} (hs : OneKindEach kind samples)
  (hpart : WritesOf part k)

include hs hpart

/-- A query of another kind selects no write. -/
theorem not_selected {query : MetricSelector} (hkind : kind query.name ≠ k) :
    ∀ w ∈ samples.filterMap part, selects query w.1 = false := by
  intro w hw
  obtain ⟨s, hmem, hsome⟩ := List.mem_filterMap.mp hw
  obtain ⟨hsel, hk⟩ := hpart s w hsome
  rw [← hsel, Bool.eq_false_iff]
  intro h
  have hname : s.name = query.name := beq_iff_eq.mp (Bool.and_eq_true_iff.mp h).1
  apply hkind
  rw [← hname, ← hs.kinds s hmem, hk]

theorem holdsWrites_of_foldl {stored stored' : KeyMap Str ν}
    (hperm : stored.entries.Perm stored'.entries)
    (update : MetricSelector × α → Option ν → ν)
    (hfold : stored' = (samples.filterMap part).foldl
      (fun m w => m.upsert (canonical w.1) (update w)) ∅) :
    HoldsWrites stored (samples.filterMap part) := by
  refine ⟨?_, ?_⟩
  · intro w hw
    obtain ⟨s, hmem, hsome⟩ := List.mem_filterMap.mp hw
    rw [← (hpart s w hsome).1]
    exact hs.readable s hmem
  · intro j
    rw [(hperm.map Prod.fst).mem_iff, hfold, KeyMap.mem_keys_foldl_upsert]
    simp

end Writes

/-! ## What the engine resolves -/

theorem sumOver_eq_zero {α M : Type} [AddCommMonoid M] {p : MetricSelector → Bool} (amount : α → M)
    {ws : List (MetricSelector × α)} (h : ∀ w ∈ ws, p w.1 = false) : sumOver p amount ws = 0 := by
  apply List.sum_eq_zero
  intro x hx
  obtain ⟨w, hw, rfl⟩ := List.mem_map.mp hx
  simp [h w hw]

theorem not_seenAgain_of_not_selected {α : Type} {query : MetricSelector}
    {ws : List (MetricSelector × α)} (h : ∀ w ∈ ws, selects query w.1 = false) :
    ∀ w ∈ ws, seenAgain query w.1 = false := by
  intro w hw
  rw [Bool.eq_false_iff]
  intro hseen
  exact Bool.false_ne_true ((h w hw).symm.trans (selects_of_seenAgain hseen))

section Empty

variable {H : Type} {q : Str} {query : MetricSelector} (snapshot : MetricsSnapshot ℚ H)

theorem mergedTrend_eq_none [Histogram ℚ H] (h : matchingRows q snapshot.trends = []) :
    mergedTrendForThreshold q snapshot = none := by
  have hsome := mergedTrend_isSome q snapshot
  rw [h] at hsome
  simpa using hsome

theorem mergedCounter_eq_none (h : matchingRows q snapshot.counters = []) :
    mergedCounterForThreshold q snapshot = none := by
  have hmap := mergedCounter_eq q snapshot
  rw [h] at hmap
  simpa using hmap

theorem mergedRate_eq_none (h : matchingRows q snapshot.rates = []) :
    mergedRateForThreshold q snapshot = none := by
  rw [mergedRate_eq, h]
  rfl

/-- Without a row to merge there is no row with the canonical name either. -/
theorem find?_metricNamesMatch_eq_none (hq : parse q = .ok query) {μ : Type}
    {rows : List (Str × μ)} (hparse : ∀ row ∈ rows, ∃ sel, parse row.1 = .ok sel)
    (hrows : matchingRows q rows = []) :
    rows.find? (fun row => metricNamesMatch q row.1) = none := by
  rw [List.find?_eq_none]
  intro row hrow hname
  obtain ⟨sel, hsel⟩ := hparse row hrow
  rw [matchingRows, List.filter_eq_nil_iff] at hrows
  exact hrows row hrow (storedIsSubsetMatch_of_metricNamesMatch hq hsel hname)

end Empty

section Rows

variable {F H : Type} [FloatOps F] [Histogram F H] (reg : MetricsRegistry F H) (durationSecs : F)

/-- The value and the rate of a counter row. -/
def counterAnswer (c : CounterMetric) : UInt64 × F :=
  (c.value, if lt zero durationSecs then div (ofNat c.value.toNat) durationSecs else zero)

theorem counters_snapshot : (reg.snapshot durationSecs).counters =
    SortedMap.sortByKey ((deriveRows CounterMetric.merge reg.counters).entries.map fun e =>
      (e.1, counterAnswer durationSecs e.2)) := rfl

theorem rates_snapshot : (reg.snapshot durationSecs).rates =
    SortedMap.sortByKey ((deriveRows RateMetric.merge reg.rates).entries.map fun e =>
      (e.1, rateAnswer e.2.passes e.2.total)) := rfl

theorem trends_snapshot : (reg.snapshot durationSecs).trends =
    SortedMap.sortByKey ((deriveRows TrendMetric.merge reg.trends).entries.map fun e =>
      (e.1, e.2.stats)) := rfl

theorem parse_derived_row {ν α μ : Type} {stored : KeyMap Str ν} {ws : List (MetricSelector × α)}
    (h : HoldsWrites stored ws) (merge : ν → ν → ν) (f : ν → μ) :
    ∀ row ∈ SortedMap.sortByKey ((deriveRows merge stored).entries.map fun e => (e.1, f e.2)),
      ∃ sel, parse row.1 = .ok sel := by
  intro row hrow
  obtain ⟨e, he, rfl⟩ := List.mem_map.mp ((mem_sortByKey _ row).mp hrow)
  obtain ⟨-, -, sel, hsel, -⟩ := exists_of_derived_row h merge (List.mem_map_of_mem he)
  exact ⟨sel, hsel⟩

end Rows

/-- Samples are never written to a gauge. -/
theorem gauges_snapshot {F H : Type} [FloatOps F] [Histogram F H] {samples : List (Sample F)}
    {reg : MetricsRegistry F H} (hreg : reg.Reordered (MetricsRegistry.record samples))
    (durationSecs : F) : (reg.snapshot durationSecs).gauges = [] := by
  have hnil := hreg.gauges
  rw [MetricsRegistry.gauges_record, KeyMap.entries_empty, List.perm_nil] at hnil
  simp [MetricsRegistry.snapshot, hnil, SortedMap.sortByKey]

section Snapshot

variable {H : Type} [Histogram ℚ H] {kind : Str → MetricKind} {samples : List (Sample ℚ)}
  (hs : OneKindEach kind samples) {reg : MetricsRegistry ℚ H}
  (hreg : reg.Reordered (MetricsRegistry.record samples)) (durationSecs : ℚ)

include hs hreg

theorem counters_holdsWrites :
    HoldsWrites reg.counters (samples.filterMap Sample.counterWrite) :=
  holdsWrites_of_foldl hs counterWrite_writesOf hreg.counters _ (MetricsRegistry.counters_record _)

theorem rates_holdsWrites : HoldsWrites reg.rates (samples.filterMap Sample.rateWrite) :=
  holdsWrites_of_foldl hs rateWrite_writesOf hreg.rates _ (MetricsRegistry.rates_record _)

theorem trends_holdsWrites : HoldsWrites reg.trends (samples.filterMap Sample.trendWrite) :=
  holdsWrites_of_foldl hs trendWrite_writesOf hreg.trends _ (MetricsRegistry.trends_record _)

variable {q : Str} {query : MetricSelector} (hq : parse q = .ok query)

include hq

theorem counterRows_eq_nil_iff : matchingRows q (reg.snapshot durationSecs).counters = [] ↔
    ∀ w ∈ samples.filterMap Sample.counterWrite, selects query w.1 = false := by
  rw [counters_snapshot]
  exact matchingRows_derived_eq_nil_iff hq (counters_holdsWrites hs hreg) _ _

theorem rateRows_eq_nil_iff : matchingRows q (reg.snapshot durationSecs).rates = [] ↔
    ∀ w ∈ samples.filterMap Sample.rateWrite, selects query w.1 = false := by
  rw [rates_snapshot]
  exact matchingRows_derived_eq_nil_iff hq (rates_holdsWrites hs hreg) _ fun r =>
    rateAnswer r.passes r.total

theorem trendRows_eq_nil_iff : matchingRows q (reg.snapshot durationSecs).trends = [] ↔
    ∀ w ∈ samples.filterMap Sample.trendWrite, selects query w.1 = false := by
  rw [trends_snapshot]
  exact matchingRows_derived_eq_nil_iff hq (trends_holdsWrites hs hreg) _ _

/-- A query that selects no write resolves to zero. -/
theorem resolveStat_eq_zero (stat : ThresholdStat ℚ)
    (hcounters : ∀ w ∈ samples.filterMap Sample.counterWrite, selects query w.1 = false)
    (hrates : ∀ w ∈ samples.filterMap Sample.rateWrite, selects query w.1 = false)
    (htrends : ∀ w ∈ samples.filterMap Sample.trendWrite, selects query w.1 = false) :
    resolveStat q stat (reg.snapshot durationSecs) = 0 := by
  rw [← counterRows_eq_nil_iff hs hreg durationSecs hq] at hcounters
  rw [← rateRows_eq_nil_iff hs hreg durationSecs hq] at hrates
  rw [← trendRows_eq_nil_iff hs hreg durationSecs hq] at htrends
  have hgauges := gauges_snapshot hreg durationSecs
  have hcounterRow := find?_metricNamesMatch_eq_none hq (counters_snapshot reg durationSecs ▸
    parse_derived_row (counters_holdsWrites hs hreg) _ _) hcounters
  have hrateRow := find?_metricNamesMatch_eq_none hq (rates_snapshot reg durationSecs ▸
    parse_derived_row (rates_holdsWrites hs hreg) _ fun r => rateAnswer r.passes r.total) hrates
  have htrendRow := find?_metricNamesMatch_eq_none hq (trends_snapshot reg durationSecs ▸
    parse_derived_row (trends_holdsWrites hs hreg) _ _) htrends
  rw [resolveStat, mergedTrend_eq_none _ htrends, mergedCounter_eq_none _ hcounters,
    mergedRate_eq_none _ hrates]
  simp only [resolveByName, htrendRow, hcounterRow, hrateRow, hgauges, List.find?_nil, zero_rat]

/-! ### Counters -/

theorem counter_totals : ReadsAddUp reg.counters CounterMetric.merge CounterMetric.value
    (samples.filterMap Sample.counterWrite) (fun v => v) q query :=
  readsAddUp hq (counters_holdsWrites hs hreg) hreg.counters _ _ (fun _ _ => rfl) _
    (MetricsRegistry.total_counters_record samples)

theorem counterGet_eq : reg.counterGet q =
    sumOver (selects query) (fun v => v) (samples.filterMap Sample.counterWrite) :=
  (counter_totals hs hreg hq).live

theorem resolveStat_counter (hkind : kind query.name = .counter) :
    resolveStat q .count (reg.snapshot durationSecs) =
      ((sumOver (selects query) (fun v => v) (samples.filterMap Sample.counterWrite) +
        sumOver (seenAgain query) (fun v => v)
          (samples.filterMap Sample.counterWrite) : UInt64).toNat : ℚ) := by
  have hother : kind query.name ≠ .trend ∧ kind query.name ≠ .rate := by simp [hkind]
  have htrends := not_selected hs trendWrite_writesOf hother.1
  have hrates := not_selected hs rateWrite_writesOf hother.2
  cases hrows : matchingRows q (reg.snapshot durationSecs).counters with
  | nil =>
      have hcounters := (counterRows_eq_nil_iff hs hreg durationSecs hq).mp hrows
      rw [resolveStat_eq_zero hs hreg durationSecs hq _ hcounters hrates htrends,
        sumOver_eq_zero _ hcounters, sumOver_eq_zero _ (not_seenAgain_of_not_selected hcounters)]
      rfl
  | cons row rows =>
      have hmerged := mergedCounter_eq q (reg.snapshot durationSecs)
      have hsum := sum_matchingRows (q := q) (deriveRows CounterMetric.merge reg.counters)
        (counterAnswer durationSecs) (fun row => row.2.1) CounterMetric.value fun _ _ => rfl
      rw [← counters_snapshot, (counter_totals hs hreg hq).engine] at hsum
      rw [hsum, hrows] at hmerged
      obtain ⟨⟨value, rate⟩, hsome, hvalue⟩ := Option.map_eq_some_iff.mp hmerged
      rw [resolveStat, mergedTrend_eq_none _
        ((trendRows_eq_nil_iff hs hreg durationSecs hq).mpr htrends), hsome]
      simp only [resolveCounter, ofNat_rat, ← hvalue]

/-! ### Rates -/

theorem passes_totals : ReadsAddUp reg.rates RateMetric.merge RateMetric.passes
    (samples.filterMap Sample.rateWrite) Bool.toNat q query :=
  readsAddUp hq (rates_holdsWrites hs hreg) hreg.rates _ _ (fun _ _ => rfl) _
    (MetricsRegistry.total_passes_record samples)

theorem checks_totals : ReadsAddUp reg.rates RateMetric.merge RateMetric.total
    (samples.filterMap Sample.rateWrite) (fun _ => 1) q query :=
  readsAddUp hq (rates_holdsWrites hs hreg) hreg.rates _ _ (fun _ _ => rfl) _
    (MetricsRegistry.total_checks_record samples)

/-- The passes and the total that the live read adds up for a rate. -/
theorem rateGet_eq_rateAnswer :
    reg.rateGet q = rateAnswer
      (sumOver (selects query) Bool.toNat (samples.filterMap Sample.rateWrite))
      (sumOver (selects query) (fun _ => 1) (samples.filterMap Sample.rateWrite)) := by
  rw [rateGet_eq, (passes_totals hs hreg hq).live, (checks_totals hs hreg hq).live]

/-- What the engine merges for a rate; the samples that are seen again count twice. -/
theorem mergedRate_engine :
    mergedRateForThreshold q (reg.snapshot durationSecs) =
      if (matchingRows q (reg.snapshot durationSecs).rates).isEmpty then none
      else some (rateAnswer
        (sumOver (selects query) Bool.toNat (samples.filterMap Sample.rateWrite) +
          sumOver (seenAgain query) Bool.toNat (samples.filterMap Sample.rateWrite))
        (sumOver (selects query) (fun _ => 1) (samples.filterMap Sample.rateWrite) +
          sumOver (seenAgain query) (fun _ => 1) (samples.filterMap Sample.rateWrite))) := by
  have hpasses := sum_matchingRows (q := q) (deriveRows RateMetric.merge reg.rates)
    (fun r => (rateAnswer r.passes r.total : ℚ × ℕ × ℕ)) (fun row => row.2.2.1)
    RateMetric.passes fun _ _ => rfl
  have htotal := sum_matchingRows (q := q) (deriveRows RateMetric.merge reg.rates)
    (fun r => (rateAnswer r.passes r.total : ℚ × ℕ × ℕ)) (fun row => row.2.2.2)
    RateMetric.total fun _ _ => rfl
  rw [← rates_snapshot] at hpasses htotal
  rw [mergedRate_eq, hpasses, htotal, (passes_totals hs hreg hq).engine,
    (checks_totals hs hreg hq).engine]

theorem resolveStat_rate (hkind : kind query.name = .rate) (stat : ThresholdStat ℚ) :
    resolveStat q stat (reg.snapshot durationSecs) =
      (mergedRateForThreshold q (reg.snapshot durationSecs)).elim 0 fun r =>
        resolveRate r.1 r.2.2 stat := by
  have hother : kind query.name ≠ .trend ∧ kind query.name ≠ .counter := by simp [hkind]
  have htrends := not_selected hs trendWrite_writesOf hother.1
  have hcounters := not_selected hs counterWrite_writesOf hother.2
  cases hmerged : mergedRateForThreshold q (reg.snapshot durationSecs) with
  | none =>
      have hnil : matchingRows q (reg.snapshot durationSecs).rates = [] := by
        rw [mergedRate_eq] at hmerged
        split at hmerged
        · rename_i hempty
          exact List.isEmpty_iff.mp hempty
        · cases hmerged
      rw [resolveStat_eq_zero hs hreg durationSecs hq _ hcounters
        ((rateRows_eq_nil_iff hs hreg durationSecs hq).mp hnil) htrends]
      rfl
  | some r =>
      rw [resolveStat, mergedTrend_eq_none _
        ((trendRows_eq_nil_iff hs hreg durationSecs hq).mpr htrends), mergedCounter_eq_none _
        ((counterRows_eq_nil_iff hs hreg durationSecs hq).mpr hcounters), hmerged]
      rfl

/-! ### Trends -/

theorem values_totals : ReadsAddUp reg.trends TrendMetric.merge TrendMetric.count
    (samples.filterMap Sample.trendWrite) (fun _ => 1) q query :=
  readsAddUp hq (trends_holdsWrites hs hreg) hreg.trends _ _ count_merge _
    (MetricsRegistry.total_values_record samples)

theorem sum_totals : ReadsAddUp reg.trends TrendMetric.merge TrendMetric.sum
    (samples.filterMap Sample.trendWrite) (fun v => v) q query :=
  readsAddUp hq (trends_holdsWrites hs hreg) hreg.trends _ _ sum_merge _
    (MetricsRegistry.total_sum_record samples)

/-- The average over a number of samples, zero without samples. -/
def average (sum : ℚ) (count : ℕ) : ℚ := if 0 < count then sum / (count : ℚ) else 0

theorem trendStats_eq :
    (reg.trendStats q).elim 0 TrendStats.count =
        sumOver (selects query) (fun _ => 1) (samples.filterMap Sample.trendWrite) ∧
      (reg.trendStats q).elim 0 TrendStats.avg = average
        (sumOver (selects query) (fun v => v) (samples.filterMap Sample.trendWrite))
        (sumOver (selects query) (fun _ => 1) (samples.filterMap Sample.trendWrite)) := by
  have hlive := trendStats_count_avg reg q
  simp only at hlive
  rw [(values_totals hs hreg hq).live, (sum_totals hs hreg hq).live] at hlive
  exact hlive

theorem resolveStat_trend (hkind : kind query.name = .trend) :
    let count := sumOver (selects query) (fun _ => 1) (samples.filterMap Sample.trendWrite) +
      sumOver (seenAgain query) (fun _ => 1) (samples.filterMap Sample.trendWrite)
    let sum := sumOver (selects query) (fun v => v) (samples.filterMap Sample.trendWrite) +
      sumOver (seenAgain query) (fun v => v) (samples.filterMap Sample.trendWrite)
    resolveStat q .count (reg.snapshot durationSecs) = ((count : ℕ) : ℚ) ∧
      resolveStat q .avg (reg.snapshot durationSecs) = average sum count := by
  intro count sum
  have hother : kind query.name ≠ .rate ∧ kind query.name ≠ .counter := by simp [hkind]
  have hrates := not_selected hs rateWrite_writesOf hother.1
  have hcounters := not_selected hs counterWrite_writesOf hother.2
  cases hmerged : mergedTrendForThreshold q (reg.snapshot durationSecs) with
  | none =>
      have hnil : matchingRows q (reg.snapshot durationSecs).trends = [] := by
        have hsome := mergedTrend_isSome q (reg.snapshot durationSecs)
        rw [hmerged] at hsome
        simpa using hsome
      have htrends := (trendRows_eq_nil_iff hs hreg durationSecs hq).mp hnil
      have hcount : count = 0 := by
        change sumOver _ _ _ + sumOver _ _ _ = 0
        rw [sumOver_eq_zero _ htrends, sumOver_eq_zero _ (not_seenAgain_of_not_selected htrends),
          add_zero]
      rw [resolveStat_eq_zero hs hreg durationSecs hq _ hcounters hrates htrends,
        resolveStat_eq_zero hs hreg durationSecs hq _ hcounters hrates htrends, hcount]
      exact ⟨rfl, rfl⟩
  | some t =>
      have hcount := sum_matchingRows (q := q) (deriveRows TrendMetric.merge reg.trends)
        TrendMetric.stats (fun row => row.2.count) TrendMetric.count fun _ t => (avg_stats t).1
      have hsum := sum_matchingRows (q := q) (deriveRows TrendMetric.merge reg.trends)
        TrendMetric.stats rowSum TrendMetric.sum fun _ t => avg_mul_count_stats t
      rw [← trends_snapshot reg durationSecs, (values_totals hs hreg hq).engine] at hcount
      rw [← trends_snapshot reg durationSecs, (sum_totals hs hreg hq).engine] at hsum
      obtain ⟨htcount, htavg⟩ := mergedTrend_count_avg hmerged
      rw [hcount] at htcount
      rw [hsum, htcount] at htavg
      rw [resolveStat, resolveStat, hmerged]
      refine ⟨?_, htavg⟩
      simp only [MergedTrend.resolve, htcount, ofNat_rat]
      rfl

end Snapshot

/-! ## When the two reads agree -/

/-- Both reads answer the sum over the selected samples: the live registry does, and the
engine resolves the same from the snapshot. -/
def ReadsAgree {H : Type} [Histogram ℚ H] (kind : MetricKind) (samples : List (Sample ℚ))
    (reg : MetricsRegistry ℚ H) (durationSecs : ℚ) (q : Str) (query : MetricSelector) : Prop :=
  let snapshot := reg.snapshot durationSecs
  match kind with
  | .counter =>
      reg.counterGet q =
          sumOver (selects query) (fun v => v) (samples.filterMap Sample.counterWrite) ∧
        resolveStat q .count snapshot = ((reg.counterGet q).toNat : ℚ)
  | .rate =>
      reg.rateGet q = rateAnswer
          (sumOver (selects query) Bool.toNat (samples.filterMap Sample.rateWrite))
          (sumOver (selects query) (fun _ => 1) (samples.filterMap Sample.rateWrite)) ∧
        (mergedRateForThreshold q snapshot).elim (0, 0) Prod.snd = (reg.rateGet q).2 ∧
        resolveStat q .rate snapshot = (reg.rateGet q).1
  | .trend =>
      (reg.trendStats q).elim 0 TrendStats.count =
          sumOver (selects query) (fun _ => 1) (samples.filterMap Sample.trendWrite) ∧
        (reg.trendStats q).elim 0 TrendStats.avg = average
          (sumOver (selects query) (fun v => v) (samples.filterMap Sample.trendWrite))
          (sumOver (selects query) (fun _ => 1) (samples.filterMap Sample.trendWrite)) ∧
        resolveStat q .count snapshot = ((reg.trendStats q).elim 0 TrendStats.count : ℕ) ∧
        resolveStat q .avg snapshot = (reg.trendStats q).elim 0 TrendStats.avg

/-- The query has tags, or the tagged samples of its metric contribute nothing. -/
def SeenOnce (kind : MetricKind) (samples : List (Sample ℚ)) (query : MetricSelector) : Prop :=
  match kind with
  | .counter =>
      sumOver (seenAgain query) (fun v => v) (samples.filterMap Sample.counterWrite) = 0
  | .rate => ∀ w ∈ samples.filterMap Sample.rateWrite, seenAgain query w.1 = false
  | .trend => ∀ w ∈ samples.filterMap Sample.trendWrite, seenAgain query w.1 = false

theorem sumOver_one_eq_zero_iff {α : Type} (p : MetricSelector → Bool)
    (ws : List (MetricSelector × α)) :
    sumOver p (fun _ => 1) ws = 0 ↔ ∀ w ∈ ws, p w.1 = false := by
  constructor
  · intro h w hw
    have hzero := List.sum_eq_zero_iff_forall_eq_nat.mp h (if p w.1 then 1 else 0)
      (List.mem_map.mpr ⟨w, hw, rfl⟩)
    cases hp : p w.1 with
    | false => rfl
    | true => simp [hp] at hzero
  · exact sumOver_eq_zero _

section Agreement

open scoped UInt64.CommRing

variable {H : Type} [Histogram ℚ H] {kind : Str → MetricKind} {samples : List (Sample ℚ)}
  (hs : OneKindEach kind samples) {reg : MetricsRegistry ℚ H}
  (hreg : reg.Reordered (MetricsRegistry.record samples)) (durationSecs : ℚ)
  {q : Str} {query : MetricSelector} (hq : parse q = .ok query)

include hs hreg hq

theorem counter_readsAgree_iff (hkind : kind query.name = .counter) :
    ReadsAgree .counter samples reg durationSecs q query ↔ SeenOnce .counter samples query := by
  have hlive := counterGet_eq hs hreg hq
  have hengine := resolveStat_counter hs hreg durationSecs hq hkind
  simp only [ReadsAgree, SeenOnce, hlive, true_and, hengine, Nat.cast_inj, UInt64.toNat_inj]
  exact add_eq_left

theorem rate_readsAgree_iff (hkind : kind query.name = .rate) :
    ReadsAgree .rate samples reg durationSecs q query ↔ SeenOnce .rate samples query := by
  have hlive := rateGet_eq_rateAnswer hs hreg hq
  have hengine := mergedRate_engine hs hreg durationSecs hq
  have hresolve := resolveStat_rate hs hreg durationSecs hq hkind .rate
  rw [SeenOnce, ← sumOver_one_eq_zero_iff]
  cases hrows : (matchingRows q (reg.snapshot durationSecs).rates).isEmpty with
  | true =>
      have hnone := (rateRows_eq_nil_iff hs hreg durationSecs hq).mp (List.isEmpty_iff.mp hrows)
      have hagain := not_seenAgain_of_not_selected hnone
      rw [hrows, if_pos rfl] at hengine
      rw [hengine] at hresolve
      simp only [ReadsAgree, hlive, hresolve, hengine, sumOver_eq_zero _ hnone,
        sumOver_eq_zero _ hagain]
      simp [rateAnswer]
  | false =>
      rw [hrows, if_neg Bool.false_ne_true] at hengine
      rw [hengine] at hresolve
      simp only [ReadsAgree, hlive, hresolve, hengine, true_and]
      constructor
      · intro h
        have htotal := congrArg Prod.snd h.1
        simpa [rateAnswer] using htotal
      · intro h
        have hpasses := sumOver_eq_zero Bool.toNat ((sumOver_one_eq_zero_iff _ _).mp h)
        rw [h, hpasses]
        exact ⟨rfl, rfl⟩

theorem trend_readsAgree_iff (hkind : kind query.name = .trend) :
    ReadsAgree .trend samples reg durationSecs q query ↔ SeenOnce .trend samples query := by
  obtain ⟨hcount, havg⟩ := trendStats_eq hs hreg hq
  obtain ⟨hcount', havg'⟩ := resolveStat_trend hs hreg durationSecs hq hkind
  rw [SeenOnce, ← sumOver_one_eq_zero_iff]
  simp only [ReadsAgree, hcount, havg, hcount', havg', true_and, Nat.cast_inj]
  constructor
  · intro h
    exact Nat.add_eq_left.mp h.1
  · intro h
    have hsum := sumOver_eq_zero (fun v : ℚ => v) ((sumOver_one_eq_zero_iff _ _).mp h)
    rw [h, hsum]
    exact ⟨rfl, by rw [add_zero, Nat.add_zero]⟩

/-- The engine and the live registry agree on a query exactly when no sample is seen
again through an untagged row. -/
theorem readsAgree_iff :
    ReadsAgree (kind query.name) samples reg durationSecs q query ↔
      SeenOnce (kind query.name) samples query := by
  cases hkind : kind query.name with
  | counter => exact counter_readsAgree_iff hs hreg durationSecs hq hkind
  | rate => exact rate_readsAgree_iff hs hreg durationSecs hq hkind
  | trend => exact trend_readsAgree_iff hs hreg durationSecs hq hkind

end Agreement

section Example

/-- One tagged sample of the counter `hits`. -/
def taggedHit : List (Sample ℚ) :=
  [⟨"hits".toList, .pairs [("url".toList, "/a".toList)], .counter 1⟩]

def allCounters : Str → MetricKind := fun _ => .counter

def bareHits : MetricSelector := ⟨"hits".toList, ∅⟩

def hitsOfA : MetricSelector := ⟨"hits".toList, lastWins [("url".toList, "/a".toList)]⟩

/-- The registry after the tagged sample. -/
def taggedHitRegistry : MetricsRegistry ℚ (List ℕ) := MetricsRegistry.record taggedHit

theorem readsAgree_hits_of_url :
    ReadsAgree .counter taggedHit taggedHitRegistry 1 "hits{url:/a}".toList hitsOfA := by
  have hs : OneKindEach allCounters taggedHit :=
    ⟨by simp only [Readable]; decide, by decide⟩
  have hreg : taggedHitRegistry.Reordered (MetricsRegistry.record taggedHit) :=
    ⟨.refl _, .refl _, .refl _, .refl _⟩
  have hq : parse "hits{url:/a}".toList = .ok hitsOfA := by decide
  apply (readsAgree_iff hs hreg 1 hq).mpr
  rfl

theorem not_readsAgree_bare_hits :
    ¬ReadsAgree .counter taggedHit taggedHitRegistry 1 "hits".toList bareHits := by
  intro h
  exact absurd h.2 (by decide +kernel)

end Example

end K6Rs
