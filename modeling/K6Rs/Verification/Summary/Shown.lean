import K6Rs.Verification.Summary.Submetric

/-! Which names the summary shows. A row of a counter, rate or trend is derived from a stored cell,
or synthesized under the canonical name of a threshold key; a gauge keeps the name it was set
under. -/

namespace K6Rs

open FloatOps MetricSelector

/-! ## Names in the data object -/

section Data

variable {F H : Type}

theorem mem_keys_showRows {μ : Type} (shown : Str → Bool) (toMetric : Str → μ → SummaryMetric F)
    (rows : List (Str × μ)) (metrics : KeyMap Str (SummaryMetric F)) (name : Str) :
    name ∈ (showRows shown toMetric rows metrics).entries.map Prod.fst ↔
      shown name = true ∧ name ∈ rows.map Prod.fst ∨ name ∈ metrics.entries.map Prod.fst := by
  rw [showRows, KeyMap.mem_keys_foldl_upsert]
  apply or_congr _ Iff.rfl
  simp only [List.mem_filter, List.mem_map]
  constructor
  · rintro ⟨row, ⟨hrow, hshown⟩, rfl⟩
    exact ⟨hshown, row, hrow, rfl⟩
  · rintro ⟨hshown, row, hrow, rfl⟩
    exact ⟨row, ⟨hrow, hshown⟩, rfl⟩

/-- The names of the rows of counters, rates and trends. -/
def MetricsSnapshot.rowNames (snapshot : MetricsSnapshot F H) : List Str :=
  snapshot.counters.map Prod.fst ++ snapshot.rates.map Prod.fst ++ snapshot.trends.map Prod.fst

variable [FloatOps F] (snapshot : MetricsSnapshot F H)

theorem mem_keys_snapshotRows (thresholds : Option (KeyMap Str (List Threshold))) (name : Str) :
    name ∈ (snapshotRows snapshot thresholds).entries.map Prod.fst ↔
      includeTagged thresholds name = true ∧
        (name ∈ snapshot.rowNames ∨ name ∈ snapshot.gauges.map Prod.fst) := by
  simp only [snapshotRows, mem_keys_showRows, MetricsSnapshot.rowNames, List.mem_append,
    KeyMap.entries_empty, List.map_nil, List.not_mem_nil, or_false]
  tauto

variable [Histogram F H]

/-- A selector has a synthesized row when some row has its metric and its tags. -/
theorem synthesizeSubsetMetric_isSome_iff (target : MetricSelector) :
    (synthesizeSubsetMetric target snapshot).isSome ↔
      ∃ row ∈ snapshot.rowNames, subsetMatches target row = true := by
  have hrows : ∀ {μ : Type} (rows : List (Str × μ)),
      (rows.filter fun row => subsetMatches target row.1).isEmpty = false ↔
        ∃ row ∈ rows.map Prod.fst, subsetMatches target row = true := by
    intro μ rows
    rw [List.isEmpty_eq_false_iff, ne_eq, List.filter_eq_nil_iff]
    simp
  have htrends : (snapshot.trends.any fun row => subsetMatches target row.1) = true ↔
      ∃ row ∈ snapshot.trends.map Prod.fst, subsetMatches target row = true := by
    rw [List.any_eq_true]
    simp
  simp only [MetricsSnapshot.rowNames, List.mem_append, or_and_right, exists_or]
  rw [← hrows snapshot.counters, ← hrows snapshot.rates, ← htrends, synthesizeSubsetMetric]
  cases snapshot.trends.any fun row => subsetMatches target row.1 with
  | true => simp
  | false =>
      cases (snapshot.counters.filter fun row => subsetMatches target row.1).isEmpty with
      | false => simp
      | true =>
          cases (snapshot.rates.filter fun row => subsetMatches target row.1).isEmpty <;> simp

theorem mem_keys_synthesizeRows (selectors : List MetricSelector)
    (metrics : KeyMap Str (SummaryMetric F)) (name : Str) :
    name ∈ (synthesizeRows snapshot selectors metrics).entries.map Prod.fst ↔
      (∃ sel ∈ selectors, canonical sel = name ∧
        ∃ row ∈ snapshot.rowNames, subsetMatches sel row = true) ∨
      name ∈ metrics.entries.map Prod.fst := by
  simp only [← synthesizeSubsetMetric_isSome_iff]
  induction selectors generalizing metrics with
  | nil => simp [synthesizeRows]
  | cons sel selectors ih =>
      rw [synthesizeRows, List.foldl_cons, ← synthesizeRows, ih]
      cases hsynth : synthesizeSubsetMetric sel snapshot with
      | none => simp [hsynth]
      | some synth =>
          simp only [KeyMap.mem_keys_upsert, List.mem_cons, exists_eq_or_imp, hsynth,
            Option.isSome_some, and_true, or_assoc, @eq_comm _ name]
          exact or_left_comm

end Data

/-! ## Names in the registry -/

section Registry

variable {F H : Type} [FloatOps F]

/-- The keys of the cells of counters, rates and trends. -/
def MetricsRegistry.storedKeys (reg : MetricsRegistry F H) : List Str :=
  reg.counters.entries.map Prod.fst ++ reg.rates.entries.map Prod.fst ++
    reg.trends.entries.map Prod.fst

variable [Histogram F H] (reg : MetricsRegistry F H) (durationSecs : F)

theorem mem_names_sortByKey {ν μ : Type} (m : KeyMap Str ν) (f : ν → μ) (name : Str) :
    name ∈ (SortedMap.sortByKey (m.entries.map fun e => (e.1, f e.2))).map Prod.fst ↔
      name ∈ m.entries.map Prod.fst := by
  simp only [List.mem_map, mem_sortByKey]
  constructor
  · rintro ⟨-, ⟨e, he, rfl⟩, rfl⟩
    exact ⟨e, he, rfl⟩
  · rintro ⟨e, he, rfl⟩
    exact ⟨_, ⟨e, he, rfl⟩, rfl⟩

theorem mem_gauges_snapshot (name : Str) :
    name ∈ (reg.snapshot durationSecs).gauges.map Prod.fst ↔
      name ∈ reg.gauges.entries.map Prod.fst :=
  mem_names_sortByKey reg.gauges (fun g => (g.value, g.min, g.max)) name

/-- A row is derived from a cell. -/
theorem mem_rowNames_snapshot (row : Str) :
    row ∈ (reg.snapshot durationSecs).rowNames ↔
      ∃ cell ∈ reg.storedKeys, row = passThrough cell ∨ untaggedRow cell = some row := by
  simp only [MetricsSnapshot.rowNames, MetricsRegistry.storedKeys, List.mem_append, or_and_right,
    exists_or]
  rw [← mem_keys_deriveRows CounterMetric.merge, ← mem_keys_deriveRows RateMetric.merge,
    ← mem_keys_deriveRows TrendMetric.merge]
  apply or_congr (or_congr _ _) _
  · rw [counters_snapshot]
    exact mem_names_sortByKey _ _ row
  · exact mem_names_sortByKey (deriveRows RateMetric.merge reg.rates)
      (fun r => (rateAnswer r.passes r.total : F × ℕ × ℕ)) row
  · exact mem_names_sortByKey _ _ row

/-! ### Rows and cells of a query -/

theorem subsetMatches_of_parse {target sel : MetricSelector} {stored : Str}
    (h : parse stored = .ok sel) : subsetMatches target stored = selects target sel := by
  rw [subsetMatches, h]
  rfl

/-- The untagged row of a cell matches no more than the cell does. -/
theorem selects_of_selects_bare {target sel : MetricSelector}
    (h : selects target ⟨sel.name, ∅⟩ = true) : selects target sel = true := by
  obtain ⟨hname, htags⟩ := Bool.and_eq_true_iff.mp h
  rw [tagsMatch_empty, SortedMap.isEmpty_iff] at htags
  rw [selects, hname, htags]
  rfl

/-- The rows of a cell match a query exactly when the cell does. -/
theorem exists_row_of_cell_iff (target : MetricSelector) (cell : Str) :
    (∃ row, (row = passThrough cell ∨ untaggedRow cell = some row) ∧
        subsetMatches target row = true) ↔ subsetMatches target cell = true := by
  cases hcell : parse cell with
  | error e => simp [passThrough, untaggedRow, hcell]
  | ok sel =>
      have hread : Readable sel := parse_canonical_of_parse hcell
      have hrow : passThrough cell = canonical sel := by rw [passThrough, hcell]
      rw [subsetMatches_of_parse hcell]
      constructor
      · rintro ⟨row, rfl | huntagged, hmatches⟩
        · rwa [hrow, subsetMatches_of_parse hread] at hmatches
        · rw [untaggedRow, hcell] at huntagged
          obtain ⟨-, hname⟩ := Option.ite_none_left_eq_some.mp huntagged
          rw [← Option.some_inj.mp hname, subsetMatches_of_parse (parse_name hread)] at hmatches
          exact selects_of_selects_bare hmatches
      · intro hmatches
        exact ⟨_, .inl rfl, by rwa [hrow, subsetMatches_of_parse hread]⟩

theorem exists_row_matches_iff (target : MetricSelector) :
    (∃ row ∈ (reg.snapshot durationSecs).rowNames, subsetMatches target row = true) ↔
      ∃ cell ∈ reg.storedKeys, subsetMatches target cell = true := by
  constructor
  · rintro ⟨row, hrow, hmatches⟩
    obtain ⟨cell, hcell, hrow⟩ := (mem_rowNames_snapshot reg durationSecs row).mp hrow
    exact ⟨cell, hcell, (exists_row_of_cell_iff target cell).mp ⟨row, hrow, hmatches⟩⟩
  · rintro ⟨cell, hcell, hmatches⟩
    obtain ⟨row, hrow, hmatches⟩ := (exists_row_of_cell_iff target cell).mpr hmatches
    exact ⟨row, (mem_rowNames_snapshot reg durationSecs row).mpr ⟨cell, hcell, hrow⟩, hmatches⟩

/-- A row is named like a query only under the canonical name of the query. -/
theorem eq_canonical_of_mem_rowNames {k : Str} {query : MetricSelector} (hq : parse k = .ok query)
    (hrow : k ∈ (reg.snapshot durationSecs).rowNames) : k = canonical query := by
  obtain ⟨cell, -, hrow⟩ := (mem_rowNames_snapshot reg durationSecs k).mp hrow
  cases hcell : parse cell with
  | error e =>
      rw [passThrough, untaggedRow, hcell] at hrow
      rcases hrow with rfl | hnone
      · rw [hq] at hcell
        cases hcell
      · cases hnone
  | ok sel =>
      have hread : Readable sel := parse_canonical_of_parse hcell
      rw [passThrough, untaggedRow, hcell] at hrow
      rcases hrow with rfl | hname
      · rw [Except.ok.inj (hq.symm.trans hread)]
      · obtain ⟨-, hname⟩ := Option.ite_none_left_eq_some.mp hname
        rw [← Option.some_inj.mp hname, parse_name hread] at hq
        rw [← Option.some_inj.mp hname, ← Except.ok.inj hq]
        rfl

/-- The canonical name of a bare query is that of a row when some cell matches. -/
theorem mem_rowNames_of_bare {query : MetricSelector} (hbare : query.tags = ∅)
    (hcell : ∃ cell ∈ reg.storedKeys, subsetMatches query cell = true) :
    canonical query ∈ (reg.snapshot durationSecs).rowNames := by
  obtain ⟨cell, hmem, hmatches⟩ := hcell
  have hname : canonical query = query.name := by rw [canonical_eq, if_pos hbare]
  apply (mem_rowNames_snapshot reg durationSecs _).mpr ⟨cell, hmem, _⟩
  rw [hname, passThrough, untaggedRow]
  cases hparse : parse cell with
  | error e =>
      rw [subsetMatches, hparse] at hmatches
      cases hmatches
  | ok sel =>
      rw [subsetMatches_of_parse hparse, selects, Bool.and_eq_true, beq_iff_eq] at hmatches
      cases htags : sel.tags.isEmpty with
      | true =>
          left
          dsimp only
          rw [canonical_eq, if_pos ((SortedMap.isEmpty_iff _).mp htags), hmatches.1]
      | false =>
          right
          simp [htags, hmatches.1]

/-! ## The names of threshold keys -/

variable {thresholds : KeyMap Str (List Threshold)} {k : Str}
  (hkey : k ∈ thresholds.entries.map Prod.fst) {query : MetricSelector} (hq : parse k = .ok query)

include hkey hq

omit [FloatOps F] [Histogram F H] in
theorem includeTagged_iff :
    includeTagged (some thresholds) k = true ↔ '{' ∉ k ∨ k = canonical query := by
  have hquery : Readable query := parse_canonical_of_parse hq
  by_cases hbrace : '{' ∈ k
  · have hshown : includeTagged (some thresholds) k = true ↔
        ∃ sel ∈ thresholdSelectors (some thresholds), canonical sel = k := by
      simp [includeTagged, hbrace]
    rw [hshown, or_iff_right (not_not_intro hbrace)]
    constructor
    · rintro ⟨sel, hsel, rfl⟩
      have hread := readable_thresholdSelectors _ sel hsel
      rw [Except.ok.inj (hread.symm.trans hq)]
    · intro heq
      refine ⟨query, mem_thresholdSelectors hkey hq ?_, heq.symm⟩
      intro hbare
      rw [heq, canonical_eq, if_pos hbare] at hbrace
      exact (not_mem_of_not_containsReserved (wellFormed_of_parse hq).name_clean).1 hbrace
  · simp [includeTagged, hbrace]

/-- A threshold key names a shown metric when it is the canonical name of a query that matches a
cell, or the name of a gauge without an opening brace or in canonical form. -/
theorem mem_keys_buildSummaryData_iff (md5 : Str → Str) (isTerminal : Bool)
    (groupTree : GroupSnapshot F) (duration : F) :
    k ∈ (buildSummaryData md5 isTerminal (reg.snapshot durationSecs) groupTree duration
        (some thresholds)).metrics.entries.map Prod.fst ↔
      k = canonical query ∧ (∃ cell ∈ reg.storedKeys, subsetMatches query cell = true) ∨
        k ∈ reg.gauges.entries.map Prod.fst ∧ ('{' ∉ k ∨ k = canonical query) := by
  have hquery : Readable query := parse_canonical_of_parse hq
  rw [buildSummaryData]
  dsimp only
  rw [mem_keys_synthesizeRows, mem_keys_snapshotRows, mem_gauges_snapshot,
    includeTagged_iff hkey hq]
  constructor
  · rintro (⟨sel, hsel, rfl, hrow⟩ | ⟨hshown, hrow | hgauge⟩)
    · have hread := readable_thresholdSelectors _ sel hsel
      obtain rfl := Except.ok.inj (hread.symm.trans hq)
      exact .inl ⟨rfl, (exists_row_matches_iff reg durationSecs sel).mp hrow⟩
    · have heq := eq_canonical_of_mem_rowNames reg durationSecs hq hrow
      refine .inl ⟨heq, (exists_row_matches_iff reg durationSecs query).mp ⟨k, hrow, ?_⟩⟩
      rw [heq]
      exact subsetMatches_self hquery
    · exact .inr ⟨hgauge, hshown⟩
  · rintro (⟨rfl, hcell⟩ | ⟨hgauge, hshown⟩)
    · by_cases hbare : query.tags = ∅
      · exact .inr ⟨.inr rfl, .inl (mem_rowNames_of_bare reg durationSecs hbare hcell)⟩
      · exact .inl ⟨query, mem_thresholdSelectors hkey hq hbare, rfl,
          (exists_row_matches_iff reg durationSecs query).mpr hcell⟩
    · exact .inr ⟨hshown, .inr hgauge⟩

end Registry

end K6Rs
