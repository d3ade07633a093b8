import K6Rs.Verification.Metrics.Cells

/-! What the stores of the registry hold after a sequence of writes, and what the rows
derived from a store add up to. Every store is measured by a sum over its cells. -/

namespace K6Rs

open FloatOps MetricSelector
open scoped UInt64.CommRing

/-! ## Writes -/

/-- The value of a sample, by the kind of its metric. -/
inductive Observation (F : Type) where
  | counter (value : UInt64)
  | rate (passed : Bool)
  | trend (valueMs : F)

structure Sample (F : Type) where
  name : Str
  tagging : Tagging
  observation : Observation F

namespace Sample

variable {F : Type}

def key (s : Sample F) : Str := s.tagging.key s.name

def tagMap (s : Sample F) : TagMap := s.tagging.tagMap

def selector (s : Sample F) : MetricSelector := ⟨s.name, s.tagMap⟩

theorem key_eq (s : Sample F) : s.key = canonical s.selector := s.tagging.key_eq s.name

/-! The writes to each of the stores. -/

def counterWrite (s : Sample F) : Option (MetricSelector × UInt64) :=
  match s.observation with
  | .counter value => some (s.selector, value)
  | _ => none

def rateWrite (s : Sample F) : Option (MetricSelector × Bool) :=
  match s.observation with
  | .rate passed => some (s.selector, passed)
  | _ => none

def trendWrite (s : Sample F) : Option (MetricSelector × F) :=
  match s.observation with
  | .trend valueMs => some (s.selector, valueMs)
  | _ => none

end Sample

namespace MetricsRegistry

variable {F H : Type} [FloatOps F] [Histogram F H]

/-- The operation that records a sample. -/
def write (reg : MetricsRegistry F H) (s : Sample F) : MetricsRegistry F H :=
  match s.observation, s.tagging with
  | .counter value, .none => reg.counterAdd s.name value
  | .counter value, .pairs tags => reg.counterAddTagged s.name value tags
  | .counter value, .map tags => reg.counterAddWithTags s.name value tags
  | .rate passed, .none => reg.rateAdd s.name passed
  | .rate passed, .pairs tags => reg.rateAddTagged s.name passed tags
  | .rate passed, .map tags => reg.rateAddWithTags s.name passed tags
  | .trend valueMs, .none => reg.trendAdd s.name valueMs
  | .trend valueMs, .pairs tags => reg.trendAddTagged s.name valueMs tags
  | .trend valueMs, .map tags => reg.trendAddWithTags s.name valueMs tags

/-- The registry after a sequence of writes. -/
def record (samples : List (Sample F)) : MetricsRegistry F H := samples.foldl write new

/-- A write adds to the one cell with the key of the sample. -/
theorem write_eq (reg : MetricsRegistry F H) (s : Sample F) :
    reg.write s = match s.observation with
      | .counter value => reg.counterAdd s.key value
      | .rate passed => reg.rateAdd s.key passed
      | .trend valueMs => reg.trendAdd s.key valueMs := by
  obtain ⟨name, tagging, observation⟩ := s
  cases observation <;> cases tagging <;> rfl

theorem record_concat (samples : List (Sample F)) (s : Sample F) :
    (record (samples ++ [s]) : MetricsRegistry F H) = (record samples).write s := by
  simp [record]

@[simp] theorem gauges_record (samples : List (Sample F)) :
    (record samples : MetricsRegistry F H).gauges = ∅ := by
  induction samples using List.reverseRecOn with
  | nil => rfl
  | append_singleton samples s ih =>
      rw [record_concat, write_eq]
      cases s.observation <;> exact ih

/-- A store sees the writes of its own kind only, in their order. -/
private theorem store_record {S W : Type} (store : MetricsRegistry F H → S)
    (part : Sample F → Option W) (update : S → W → S)
    (hstep : ∀ reg s, store (reg.write s) = (part s).elim (store reg) (update (store reg)))
    (samples : List (Sample F)) :
    store (record samples) = (samples.filterMap part).foldl update (store new) := by
  induction samples using List.reverseRecOn with
  | nil => rfl
  | append_singleton samples s ih =>
      rw [record_concat, hstep, List.filterMap_append, List.foldl_append, ← ih]
      cases h : part s <;> simp [h]

theorem counters_record (samples : List (Sample F)) :
    (record samples : MetricsRegistry F H).counters =
      (samples.filterMap Sample.counterWrite).foldl (fun m w =>
        m.upsert (canonical w.1) fun c => ⟨(c.getD .new).value + w.2⟩) ∅ := by
  apply store_record MetricsRegistry.counters
  intro reg s
  rw [write_eq, Sample.counterWrite, Sample.key_eq]
  cases s.observation <;> rfl

theorem rates_record (samples : List (Sample F)) :
    (record samples : MetricsRegistry F H).rates =
      (samples.filterMap Sample.rateWrite).foldl (fun m w =>
        m.upsert (canonical w.1) fun r => (r.getD .new).add w.2) ∅ := by
  apply store_record MetricsRegistry.rates
  intro reg s
  rw [write_eq, Sample.rateWrite, Sample.key_eq]
  cases s.observation <;> rfl

theorem trends_record (samples : List (Sample F)) :
    (record samples : MetricsRegistry F H).trends =
      (samples.filterMap Sample.trendWrite).foldl (fun m w =>
        m.upsert (canonical w.1) fun t => (t.getD .new).record w.2) ∅ := by
  apply store_record MetricsRegistry.trends
  intro reg s
  rw [write_eq, Sample.trendWrite, Sample.key_eq]
  cases s.observation <;> rfl

/-! ### What the stores add up to -/

theorem total_counters_record (samples : List (Sample F)) (p : Str → Bool) :
    (record samples : MetricsRegistry F H).counters.total p CounterMetric.value =
      ((samples.filterMap Sample.counterWrite).map fun w =>
        if p (canonical w.1) then w.2 else 0).sum := by
  rw [counters_record, KeyMap.total_foldl_upsert _ _ p CounterMetric.value Prod.snd]
  · simp
  · intro w
    exact zero_add w.2
  · intro w c
    rfl

theorem total_passes_record (samples : List (Sample F)) (p : Str → Bool) :
    (record samples : MetricsRegistry F H).rates.total p RateMetric.passes =
      ((samples.filterMap Sample.rateWrite).map fun w =>
        if p (canonical w.1) then w.2.toNat else 0).sum := by
  rw [rates_record, KeyMap.total_foldl_upsert _ _ p RateMetric.passes fun w => w.2.toNat]
  · simp
  · intro w
    cases h : w.2 <;> simp [RateMetric.add, RateMetric.new]
  · intro w r
    cases h : w.2 <;> simp [RateMetric.add]

theorem total_checks_record (samples : List (Sample F)) (p : Str → Bool) :
    (record samples : MetricsRegistry F H).rates.total p RateMetric.total =
      ((samples.filterMap Sample.rateWrite).map fun w => if p (canonical w.1) then
        1 else 0).sum := by
  rw [rates_record, KeyMap.total_foldl_upsert _ _ p RateMetric.total fun _ => 1]
  · simp
  · intro w
    rfl
  · intro w r
    rfl

theorem total_values_record (samples : List (Sample F)) (p : Str → Bool) :
    (record samples : MetricsRegistry F H).trends.total p TrendMetric.count =
      ((samples.filterMap Sample.trendWrite).map fun w => if p (canonical w.1) then
        1 else 0).sum := by
  rw [trends_record, KeyMap.total_foldl_upsert _ _ p TrendMetric.count fun _ => 1]
  · simp
  · intro w
    rfl
  · intro w t
    rfl

theorem total_sum_record [Histogram ℚ H] (samples : List (Sample ℚ)) (p : Str → Bool) :
    (record samples : MetricsRegistry ℚ H).trends.total p TrendMetric.sum =
      ((samples.filterMap Sample.trendWrite).map fun w =>
        if p (canonical w.1) then w.2 else 0).sum := by
  rw [trends_record, KeyMap.total_foldl_upsert _ _ p TrendMetric.sum Prod.snd]
  · simp
  · intro w
    exact zero_add w.2
  · intro w t
    rfl

end MetricsRegistry

/-! ## Derived rows -/

section Derived

variable {ν M : Type} [AddCommMonoid M]

/-- The canonical row of a stored cell. -/
def passThrough (storedKey : Str) : Str :=
  match parse storedKey with
  | .error _ => storedKey
  | .ok sel => canonical sel

/-- The untagged row that a tagged cell also contributes to. -/
def untaggedRow (storedKey : Str) : Option Str :=
  match parse storedKey with
  | .error _ => none
  | .ok sel => if sel.tags.isEmpty then none else some sel.name

theorem deriveTargets_eq (storedKey : Str) :
    deriveTargets storedKey = passThrough storedKey :: (untaggedRow storedKey).toList := by
  rw [deriveTargets, passThrough, untaggedRow]
  cases parse storedKey with
  | error e => rfl
  | ok sel => cases h : sel.tags.isEmpty <;> simp [h]

theorem passThrough_ne_of_untaggedRow {storedKey row : Str} (h : untaggedRow storedKey = some row) :
    passThrough storedKey ≠ row := by
  rw [untaggedRow] at h
  rw [passThrough]
  cases hparse : parse storedKey with
  | error e => simp [hparse] at h
  | ok sel =>
      simp only [hparse, Option.ite_none_left_eq_some, SortedMap.isEmpty_iff,
        Option.some.injEq] at h
      rw [← h.2]
      exact canonical_ne_name h.1

theorem deriveRows_eq_foldl (merge : ν → ν → ν) (stored : KeyMap Str ν) :
    deriveRows merge stored =
      (stored.entries.flatMap fun e => (deriveTargets e.1).map fun target => (target, e.2)).foldl
        (fun out w => out.upsert w.1 fun m => m.elim w.2 fun m => merge m w.2) ∅ := by
  rw [deriveRows, List.foldl_flatMap]
  simp only [List.foldl_map]

theorem mem_keys_deriveRows (merge : ν → ν → ν) (stored : KeyMap Str ν) (row : Str) :
    row ∈ (deriveRows merge stored).entries.map Prod.fst ↔
      ∃ k ∈ stored.entries.map Prod.fst, row = passThrough k ∨ untaggedRow k = some row := by
  rw [deriveRows_eq_foldl, KeyMap.mem_keys_foldl_upsert]
  simp only [KeyMap.entries_empty, List.map_nil, List.not_mem_nil, or_false, List.mem_flatMap,
    List.mem_map]
  constructor
  · rintro ⟨-, ⟨e, he, target, htarget, rfl⟩, rfl⟩
    exact ⟨e.1, ⟨e, he, rfl⟩, by simpa [deriveTargets_eq, eq_comm] using htarget⟩
  · rintro ⟨-, ⟨e, he, rfl⟩, hrow⟩
    exact ⟨(row, e.2), ⟨e, he, row, by simpa [deriveTargets_eq, eq_comm] using hrow, rfl⟩, rfl⟩

/-- A sum over derived rows counts a cell once under its canonical row and, when it is
tagged, once more under its untagged row. -/
theorem total_deriveRows (merge : ν → ν → ν) (stored : KeyMap Str ν) (p : Str → Bool) (g : ν → M)
    (hmerge : ∀ a b, g (merge a b) = g a + g b) :
    (deriveRows merge stored).total p g =
      stored.total (fun k => p (passThrough k)) g +
      stored.total (fun k => (untaggedRow k).any p) g := by
  rw [deriveRows_eq_foldl, KeyMap.total_foldl_upsert _ _ p g (fun w => g w.2) (fun _ => rfl)
    (fun w v => hmerge v w.2), KeyMap.total_empty, zero_add, KeyMap.total_eq_sum_ite,
    KeyMap.total_eq_sum_ite]
  induction stored.entries with
  | nil => simp
  | cons e l ih =>
      rw [List.flatMap_cons, List.map_append, List.sum_append, ih, List.map_cons, List.map_cons,
        List.sum_cons, List.sum_cons, add_add_add_comm, deriveTargets_eq]
      cases untaggedRow e.1 <;> simp

end Derived

/-! ## Rows of a snapshot -/

theorem mem_sortByKey {ν : Type} (rows : List (Str × ν)) (row : Str × ν) :
    row ∈ SortedMap.sortByKey rows ↔ row ∈ rows :=
  (List.perm_insertionSort _ _).mem_iff

/-- Looking up a row of a sorted snapshot looks up the map it was made from. -/
theorem find?_sortByKey {ν μ : Type} (m : KeyMap Str ν) (f : ν → μ) (name : Str) :
    (SortedMap.sortByKey (m.entries.map fun e => (e.1, f e.2))).find? (fun row => row.1 = name) =
      (m.find? name).map fun v => (name, f v) := by
  have hrow : ∀ row ∈ SortedMap.sortByKey (m.entries.map fun e => (e.1, f e.2)), row.1 = name →
      some row = (m.find? name).map fun v => (name, f v) := by
    intro row hmem hname
    obtain ⟨e, he, rfl⟩ := List.mem_map.mp ((mem_sortByKey _ row).mp hmem)
    rw [(m.find?_eq_some_iff name e.2).mpr (hname ▸ he), Option.map_some, ← hname]
  cases hfind : (SortedMap.sortByKey (m.entries.map fun e => (e.1, f e.2))).find?
      (fun row => row.1 = name) with
  | some row =>
      have hname : decide (row.1 = name) = true :=
        @List.find?_some _ (fun row : Str × μ => decide (row.1 = name)) _ _ hfind
      exact hrow row (List.mem_of_find?_eq_some hfind) (of_decide_eq_true hname)
  | none =>
      cases hm : m.find? name with
      | none => rfl
      | some v =>
          have hmem := List.mem_map_of_mem ((m.find?_eq_some_iff name v).mp hm)
            (f := fun e => (e.1, f e.2))
          simpa using List.find?_eq_none.mp hfind _ ((mem_sortByKey _ _).mpr hmem)

end K6Rs
