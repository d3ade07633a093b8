import K6Rs.Verification.Metrics.Totals

/-! The untagged total of a counter. A sample whose storage key the selector parser
rejects is in no total, and two tag maps share a cell when their tag blocks fall into
the same parts at the commas; every other sample is counted once. -/

namespace K6Rs

open FloatOps MetricSelector

/-! ## Keys of one metric -/

/-- An accepted key of a sample has the name of its metric. -/
theorem name_of_parse_key {name : Str} {n : MetricSelector} (hname : parse name = .ok n)
    (t : Tagging) {sel : MetricSelector} (h : parse (t.key name) = .ok sel) :
    sel.name = n.name := by
  rw [name_of_parse h, name_of_parse hname, t.key_eq, canonical_eq]
  split
  · rfl
  · have hblock : name ++ '{' :: (tagBlock t.tagMap ++ ['}']) =
        (name ++ '{' :: tagBlock t.tagMap) ++ ['}'] := by simp
    have hne : ¬∀ c ∈ name, Str.isWhitespace c := by
      intro hall
      have hnil := (Str.trim_eq_nil_iff name).mpr hall
      have hempty := name_of_parse hname
      rw [hnil] at hempty
      exact (wellFormed_of_parse hname).name_ne_nil hempty
    simp only [hblock]
    rw [Str.trim_append_singleton _ '}' (by decide), ← hblock, Str.trimStart_append name _ hne,
      Str.takeWhile_append_cons, Str.trim_takeWhile_trimStart]

/-- Whether the parser accepts the storage key of a sample. -/
def accepted (name : Str) (t : Tagging) : Bool := (parse (t.key name)).isOk

theorem storedMatchesQuery_key {name n : Str} (hname : parse name = .ok ⟨n, ∅⟩) (t : Tagging) :
    storedMatchesQuery (t.key name) (parseQuery name) name = accepted name t := by
  have hquery : parseQuery name = some ⟨n, ∅⟩ := by
    rw [parseQuery, hname]
    rfl
  rw [hquery, storedMatchesQuery, accepted]
  cases hkey : parse (t.key name) with
  | error e =>
      simp only [Except.isOk, Except.toBool, beq_eq_false_iff_ne]
      intro heq
      rw [heq, hname] at hkey
      cases hkey
  | ok sel =>
      simp [name_of_parse_key hname t hkey, tagsMatch, Except.isOk, Except.toBool]

/-- The rows of a sample include the row `name` exactly when its key is accepted and
`name` is written the way the parser reports it. -/
theorem rows_key {name n : Str} (hname : parse name = .ok ⟨n, ∅⟩) (t : Tagging) :
    (decide (passThrough (t.key name) = name) || (untaggedRow (t.key name)).any (· = name)) =
      (accepted name t && decide (n = name)) := by
  rw [passThrough, untaggedRow, accepted]
  cases hkey : parse (t.key name) with
  | error e =>
      have hne : t.key name ≠ name := by
        intro heq
        rw [heq, hname] at hkey
        cases hkey
      simp [Except.isOk, Except.toBool, hne]
  | ok sel =>
      have hn : sel.name = n := name_of_parse_key hname t hkey
      have hround := parse_canonical_of_parse hkey
      cases Decidable.em (sel.tags = ∅) with
      | inl htags =>
          have hcanonical : canonical sel = n := by
            rw [canonical_eq, if_pos htags, hn]
          simp [htags, hcanonical, Except.isOk, Except.toBool]
      | inr htags =>
          have hne : canonical sel ≠ name := by
            intro heq
            rw [heq, hname] at hround
            exact htags (Except.ok.inj hround ▸ rfl)
          have hfalse : sel.tags.isEmpty = false := by
            rwa [← Bool.not_eq_true, SortedMap.isEmpty_iff]
          simp [hne, hfalse, hn, Except.isOk, Except.toBool]

/-! ## The untagged total -/

variable {F H : Type} [FloatOps F] [Histogram F H]

/-- The samples of the counter `name`. -/
def counterSamples (name : Str) (ws : List (Tagging × UInt64)) : List (Sample F) :=
  ws.map fun w => ⟨name, w.1, .counter w.2⟩

/-- The sum of every value written. -/
def written (ws : List (Tagging × UInt64)) : UInt64 := (ws.map Prod.snd).sum

/-- The sum of the values written under an accepted key. -/
def kept (name : Str) (ws : List (Tagging × UInt64)) : UInt64 :=
  written (ws.filter fun w => accepted name w.1)

/-- The sum of the values written under a rejected key. -/
def lost (name : Str) (ws : List (Tagging × UInt64)) : UInt64 :=
  written (ws.filter fun w => !accepted name w.1)

/-- The value in the counter row `name`. -/
def MetricsSnapshot.counterRow (snapshot : MetricsSnapshot F H) (name : Str) : Option UInt64 :=
  (snapshot.counters.find? fun row => row.1 = name).map fun row => row.2.1

section

open scoped UInt64.CommRing

theorem kept_add_lost (name : Str) (ws : List (Tagging × UInt64)) :
    kept name ws + lost name ws = written ws := by
  rw [kept, lost, written, written, written]
  induction ws with
  | nil => rfl
  | cons w ws ih =>
      rw [List.map_cons, List.sum_cons, ← ih]
      cases h : accepted name w.1 with
      | true => simp [h, add_assoc]
      | false => simp [h, add_left_comm]

theorem kept_eq_written_iff (name : Str) (ws : List (Tagging × UInt64)) :
    kept name ws = written ws ↔ lost name ws = 0 := by
  rw [← kept_add_lost name ws]
  exact left_eq_add

omit [FloatOps F] in
theorem filterMap_counterSamples (name : Str) (ws : List (Tagging × UInt64)) :
    (counterSamples name ws : List (Sample F)).filterMap Sample.counterWrite =
      ws.map fun w => (⟨name, w.1.tagMap⟩, w.2) := by
  rw [counterSamples, List.filterMap_map, ← List.filterMap_eq_map]
  rfl

/-- The cells of a metric, counted by a condition on their keys. -/
theorem total_counterSamples (name : Str) (ws : List (Tagging × UInt64)) (p : Str → Bool) :
    (MetricsRegistry.record (counterSamples name ws) : MetricsRegistry F H).counters.total p
        CounterMetric.value = written (ws.filter fun w => p (w.1.key name)) := by
  rw [MetricsRegistry.total_counters_record, filterMap_counterSamples, List.map_map, written]
  induction ws with
  | nil => rfl
  | cons w ws ih =>
      rw [List.map_cons, List.sum_cons, ih]
      simp only [Function.comp_apply, ← w.1.key_eq]
      cases h : p (w.1.key name) <;> simp [h]

theorem mem_keys_counterSamples (name : Str) (ws : List (Tagging × UInt64)) (k : Str) :
    k ∈ (MetricsRegistry.record (counterSamples name ws) :
        MetricsRegistry F H).counters.entries.map Prod.fst ↔ ∃ w ∈ ws, w.1.key name = k := by
  rw [MetricsRegistry.counters_record, KeyMap.mem_keys_foldl_upsert, filterMap_counterSamples]
  simp only [List.mem_map, exists_exists_and_eq_and, ← Tagging.key_eq, KeyMap.entries_empty,
    List.not_mem_nil, or_false, false_and, exists_false]

section Reads

variable {name n : Str} (hname : parse name = .ok ⟨n, ∅⟩) (ws : List (Tagging × UInt64))
  {reg : MetricsRegistry F H}
  (hreg : reg.counters.entries.Perm
    (MetricsRegistry.record (counterSamples name ws) : MetricsRegistry F H).counters.entries)

include hname hreg

theorem counterGet_eq_kept : reg.counterGet name = kept name ws := by
  change reg.counters.total (fun k => storedMatchesQuery k (parseQuery name) name)
    CounterMetric.value = _
  rw [KeyMap.total_perm hreg, total_counterSamples]
  simp only [storedMatchesQuery_key hname]
  rfl

/-- The untagged row is there when some sample has an accepted key. -/
theorem mem_keys_deriveCounters_iff :
    name ∈ (deriveCounters reg.counters).entries.map Prod.fst ↔
      name = n ∧ ∃ w ∈ ws, accepted name w.1 = true := by
  have hkeys : ∀ k, k ∈ reg.counters.entries.map Prod.fst ↔ ∃ w ∈ ws, w.1.key name = k := by
    intro k
    rw [← @mem_keys_counterSamples F H, (hreg.map Prod.fst).mem_iff]
  have hrows : ∀ t : Tagging, (name = passThrough (t.key name) ∨
      untaggedRow (t.key name) = some name) ↔ accepted name t = true ∧ n = name := by
    intro t
    have h := rows_key hname t
    rw [Bool.eq_iff_iff, Bool.or_eq_true_iff, Bool.and_eq_true_iff, decide_eq_true_iff,
      decide_eq_true_iff] at h
    rw [← h, @eq_comm _ name]
    cases untaggedRow (t.key name) <;> simp
  rw [deriveCounters, mem_keys_deriveRows]
  constructor
  · rintro ⟨k, hk, hrow⟩
    obtain ⟨w, hw, rfl⟩ := (hkeys k).mp hk
    obtain ⟨haccepted, hn⟩ := (hrows w.1).mp hrow
    exact ⟨hn.symm, w, hw, haccepted⟩
  · rintro ⟨hn, w, hw, haccepted⟩
    exact ⟨_, (hkeys _).mpr ⟨w, hw, rfl⟩, (hrows w.1).mpr ⟨haccepted, hn.symm⟩⟩

theorem value_of_untagged_row {c : CounterMetric}
    (hfind : (deriveCounters reg.counters).find? name = some c) : c.value = kept name ws := by
  have hn : name = n := by
    have hmem := List.mem_map_of_mem (f := Prod.fst) ((KeyMap.find?_eq_some_iff _ _ _).mp hfind)
    exact ((mem_keys_deriveCounters_iff hname ws hreg).mp hmem).1
  have hdisjoint : ∀ k, decide (passThrough k = name) = true →
      (untaggedRow k).any (fun row => decide (row = name)) = false := by
    intro k hk
    cases hrow : untaggedRow k with
    | none => rfl
    | some row =>
        have hne := passThrough_ne_of_untaggedRow hrow
        rw [of_decide_eq_true hk] at hne
        simpa using hne.symm
  rw [← KeyMap.total_of_find? _ CounterMetric.value hfind, deriveCounters,
    total_deriveRows _ _ _ _ fun _ _ => rfl, KeyMap.total_add_total _ _ _ _ hdisjoint,
    KeyMap.total_perm hreg, total_counterSamples]
  simp only [rows_key hname, ← hn, decide_true, Bool.and_true]
  rfl

theorem counterRow_eq (durationSecs : F) :
    (reg.snapshot durationSecs).counterRow name =
      if name = n ∧ ∃ w ∈ ws, accepted name w.1 = true then some (kept name ws) else none := by
  have hpresent := mem_keys_deriveCounters_iff hname ws hreg
  have hrow : (reg.snapshot durationSecs).counterRow name =
      ((deriveCounters reg.counters).find? name).map CounterMetric.value := by
    rw [MetricsSnapshot.counterRow, MetricsRegistry.snapshot]
    simp only
    rw [find?_sortByKey (deriveCounters reg.counters) fun c => (c.value,
      if lt zero durationSecs then div (ofNat c.value.toNat) durationSecs else zero),
      Option.map_map]
    rfl
  rw [hrow]
  cases hfind : (deriveCounters reg.counters).find? name with
  | none =>
      rw [if_neg fun h => (KeyMap.find?_eq_none_iff _ _).mp hfind (hpresent.mpr h)]
      rfl
  | some c =>
      have hmem := List.mem_map_of_mem (f := Prod.fst) ((KeyMap.find?_eq_some_iff _ _ _).mp hfind)
      rw [if_pos (hpresent.mp hmem), Option.map_some, value_of_untagged_row hname ws hreg hfind]

end Reads

end

/-! ## When every value is counted -/

/-- Every value written to the counter `name` shows in its live total and in its row,
and samples with different tags have different cells. -/
structure CountsEveryWrite (name : Str) (ws : List (Tagging × UInt64)) (reg : MetricsRegistry F H)
    (durationSecs : F) : Prop where
  live : reg.counterGet name = written ws
  row : ws ≠ [] → (reg.snapshot durationSecs).counterRow name = some (written ws)
  cells : ∀ w ∈ ws, ∀ w' ∈ ws, w.1.tagMap ≠ w'.1.tagMap → w.1.key name ≠ w'.1.key name

/-- Some key is accepted, the values under rejected keys add up to nothing, and no two
tag maps fall into the same parts at their commas. -/
structure Countable (name n : Str) (ws : List (Tagging × UInt64)) : Prop where
  present : ws ≠ [] → name = n ∧ ∃ w ∈ ws, accepted name w.1 = true
  nothing_lost : lost name ws = 0
  apart : ∀ w ∈ ws, ∀ w' ∈ ws, w.1.tagMap ≠ w'.1.tagMap → fields w.1.tagMap ≠ fields w'.1.tagMap

/-- Every value is counted exactly when the samples are countable. -/
theorem countsEveryWrite_iff {name n : Str} (hname : parse name = .ok ⟨n, ∅⟩)
    (ws : List (Tagging × UInt64)) (reg : MetricsRegistry F H)
    (hreg : reg.counters.entries.Perm
      (MetricsRegistry.record (counterSamples name ws) : MetricsRegistry F H).counters.entries)
    (durationSecs : F) :
    CountsEveryWrite name ws reg durationSecs ↔ Countable name n ws := by
  have hkeys : ∀ t t' : Tagging, t.key name ≠ t'.key name ↔ fields t.tagMap ≠ fields t'.tagMap := by
    intro t t'
    rw [t.key_eq, t'.key_eq, ne_eq, canonical_eq_iff]
  have hlive := counterGet_eq_kept hname ws hreg
  have hrow := counterRow_eq hname ws hreg durationSecs
  constructor
  · intro h
    refine ⟨?_, ?_, ?_⟩
    · intro hne
      have hsome := h.row hne
      rw [hrow] at hsome
      exact (Option.ite_none_right_eq_some.mp hsome).1
    · rw [← kept_eq_written_iff, ← hlive]
      exact h.live
    · intro w hw w' hw' hne
      exact (hkeys _ _).mp (h.cells w hw w' hw' hne)
  · intro h
    have hkept : kept name ws = written ws := (kept_eq_written_iff name ws).mpr h.nothing_lost
    refine ⟨?_, ?_, ?_⟩
    · rw [hlive, hkept]
    · intro hne
      rw [hrow, if_pos (h.present hne), hkept]
    · intro w hw w' hw' hne
      exact (hkeys _ _).mpr (h.apart w hw w' hw' hne)

section Example

/-- The counter `hits` after these samples. -/
def hitsRegistry (ws : List (Tagging × UInt64)) : MetricsRegistry ℚ (List ℕ) :=
  MetricsRegistry.record (counterSamples "hits".toList ws)

/-- An untagged sample and two that are tagged in different ways. -/
def cleanHits : List (Tagging × UInt64) :=
  [(.none, 2), (.pairs [("url".toList, "/a".toList)], 3),
    (.pairs [("url".toList, "/b".toList), ("url".toList, "/c".toList)], 4)]

/-- One sample with a comma in the value of its tag. -/
def commaHits : List (Tagging × UInt64) := [(.pairs [("url".toList, "/a,b".toList)], 1)]

theorem countsEveryWrite_cleanHits :
    CountsEveryWrite "hits".toList cleanHits (hitsRegistry cleanHits) 1 := by
  have hcount : Countable "hits".toList "hits".toList cleanHits := ⟨by decide, by decide, by decide⟩
  exact (countsEveryWrite_iff (by decide) cleanHits (hitsRegistry cleanHits)
    (List.Perm.refl _) 1).mpr hcount

theorem not_countsEveryWrite_commaHits :
    ¬CountsEveryWrite "hits".toList commaHits (hitsRegistry commaHits) 1 := by
  intro h
  have hlive := h.live
  exact absurd hlive (by decide)

end Example

end K6Rs
