import K6Rs.Verification.Conformance.Sidecar
import K6Rs.Verification.Groups.Readers

/-! # The export of a summary is adapted to what the summary shows

JSON has no text for a float that is not finite, and the adapter accepts none; an export is read
back exactly when all of its floats are finite. -/

namespace K6Rs

open MetricSelector

variable {F : Type} [FloatOps F]

/-! ## Floats -/

/-- The float has a JSON text. -/
def HarnessFormat.Finite (format : HarnessFormat F) (x : F) : Prop :=
  (format.toBits x >>> 52) &&& 0x7FF ≠ 0x7FF

theorem readF64_serializeF64 (format : HarnessFormat F) (x : F)
    (hcoding : format.Finite x → format.ofBits (format.toBits x) = x) :
    (readF64 format.ofBits (serializeF64 (format.toBits x)) = some x ∧ format.Finite x) ∨
      (readF64 format.ofBits (serializeF64 (format.toBits x)) = none ∧ ¬format.Finite x) := by
  rw [serializeF64]
  by_cases h : (format.toBits x >>> 52) &&& 0x7FF = 0x7FF
  · rw [if_pos h]
    exact .inr ⟨rfl, not_not.mpr h⟩
  · rw [if_neg h, readF64, hcoding h]
    exact .inl ⟨rfl, h⟩

/-! ## Typed maps -/

theorem readMap_object_eq_none {α β : Type} {read : Json → Option α} {write : β → Json}
    {members : List (Str × β)} {e : Str × β} (he : e ∈ members) (h : read (write e.2) = none) :
    readMap read (.object (members.map fun e => (e.1, write e.2))) = none := by
  have hentries : (members.map fun e => (e.1, write e.2)).mapM
      (fun member => (read member.2).map fun x => (member.1, x)) = none := by
    induction members with
    | nil => cases he
    | cons b members ih =>
        cases hb : read (write b.2) with
        | none => simp [hb]
        | some x =>
            have htail : e ∈ members := by
              rcases List.mem_cons.mp he with rfl | htail
              · rw [h] at hb
                cases hb
              · exact htail
            simp [hb, ih htail]
  simp only [readMap, Json.asObject, Option.bind_eq_bind, Option.bind_some, hentries]
  rfl

/-! ## Entries -/

namespace SummaryMetric

/-- The entry that a row of the summary is read as. -/
def entry (m : SummaryMetric F) : K6rsMetricEntry F := ⟨m.metricType, m.values⟩

def Finite (format : HarnessFormat F) (m : SummaryMetric F) : Prop :=
  ∀ e ∈ m.values.entries, format.Finite e.2

variable {format : HarnessFormat F}

theorem ofJson_metricJson (m : SummaryMetric F) :
    K6rsMetricEntry.ofJson format.ofBits (SummaryData.metricJson format.toBits m) =
      (readMap (readF64 format.ofBits)
        (.object (m.values.entries.map fun e => (e.1, serializeF64 (format.toBits e.2))))).bind
          fun values => some ⟨m.metricType, values⟩ := rfl

theorem ofJson_of_finite (hcoding : ∀ x, format.Finite x → format.ofBits (format.toBits x) = x)
    {m : SummaryMetric F} (h : m.Finite format) :
    K6rsMetricEntry.ofJson format.ofBits (SummaryData.metricJson format.toBits m) =
    some m.entry := by
  have hmap := @readMap_object _ _ (readF64 format.ofBits)
    (fun x => serializeF64 (format.toBits x)) id m.values.entries fun e he => by
      rcases readF64_serializeF64 format e.2 (hcoding e.2) with ⟨hread, _⟩ | ⟨_, hinfinite⟩
      · exact hread
      · exact absurd (h e he) hinfinite
  have hmembers : (m.values.entries.map fun e => (e.1, id e.2)) = m.values.entries := by simp
  rw [ofJson_metricJson, hmap, hmembers, SortedMap.ofList_entries, Option.bind_some, entry]

theorem ofJson_of_not_finite (hcoding : ∀ x, format.Finite x → format.ofBits (format.toBits x) = x)
    {m : SummaryMetric F} (h : ¬m.Finite format) :
    K6rsMetricEntry.ofJson format.ofBits (SummaryData.metricJson format.toBits m) = none := by
  obtain ⟨e, he, hinfinite⟩ : ∃ e ∈ m.values.entries, ¬format.Finite e.2 := by
    simpa [Finite] using h
  rcases readF64_serializeF64 format e.2 (hcoding e.2) with ⟨_, hfinite⟩ | ⟨hread, _⟩
  · exact absurd hfinite hinfinite
  · have hmap :=
      @readMap_object_eq_none _ _ _ (fun x => serializeF64 (format.toBits x)) _ e he hread
    rw [ofJson_metricJson, hmap, Option.bind_none]

end SummaryMetric

/-! ## The whole export -/

namespace SummaryData

variable {format : HarnessFormat F}

/-- Every float of the export has a JSON text. -/
structure Finite (format : HarnessFormat F) (data : SummaryData F) : Prop where
  metrics : ∀ e ∈ data.metrics.entries, e.2.Finite format
  duration : format.Finite data.state.testRunDurationMs

theorem ofJson_toJson (data : SummaryData F) :
    K6rsSummary.ofJson format.ofBits (data.toJson format.toBits) =
      (readMap (K6rsMetricEntry.ofJson format.ofBits)
        (.object (data.metrics.entries.map fun e => (e.1, metricJson format.toBits e.2)))).bind
          fun metrics =>
          (readF64 format.ofBits (serializeF64 (format.toBits data.state.testRunDurationMs))).bind
            fun duration => some ⟨metrics, duration, some data.rootGroup.toJson⟩ := by
  obtain ⟨metrics, rootGroup, state⟩ := data
  cases rootGroup
  rfl

theorem ofJson_of_finite (hcoding : ∀ x, format.Finite x → format.ofBits (format.toBits x) = x)
    {data : SummaryData F} (h : data.Finite format) :
    K6rsSummary.ofJson format.ofBits (data.toJson format.toBits) =
      some ⟨.ofList (data.metrics.entries.map fun e => (e.1, e.2.entry)),
        data.state.testRunDurationMs, some data.rootGroup.toJson⟩ := by
  have hmap := @readMap_object _ _ (K6rsMetricEntry.ofJson format.ofBits)
    (metricJson format.toBits) SummaryMetric.entry data.metrics.entries fun e he =>
      SummaryMetric.ofJson_of_finite hcoding (h.metrics e he)
  rcases readF64_serializeF64 format _ (hcoding data.state.testRunDurationMs) with
    ⟨hread, _⟩ | ⟨_, hinfinite⟩
  · rw [ofJson_toJson, hmap, hread, Option.bind_some, Option.bind_some]
  · exact absurd h.duration hinfinite

theorem ofJson_of_not_finite (hcoding : ∀ x, format.Finite x → format.ofBits (format.toBits x) = x)
    {data : SummaryData F} (h : ¬data.Finite format) :
    K6rsSummary.ofJson format.ofBits (data.toJson format.toBits) = none := by
  rw [ofJson_toJson]
  by_cases hmetrics : ∀ e ∈ data.metrics.entries, e.2.Finite format
  · have hduration : ¬format.Finite data.state.testRunDurationMs := fun hd => h ⟨hmetrics, hd⟩
    rcases readF64_serializeF64 format _ (hcoding data.state.testRunDurationMs) with
      ⟨_, hfinite⟩ | ⟨hread, _⟩
    · exact absurd hfinite hduration
    · rw [hread]
      simp
  · obtain ⟨e, he, hinfinite⟩ : ∃ e ∈ data.metrics.entries, ¬e.2.Finite format := by
      simpa using hmetrics
    rw [readMap_object_eq_none he (SummaryMetric.ofJson_of_not_finite hcoding hinfinite),
      Option.bind_none]

end SummaryData

/-! ## The canonical metrics -/

omit [FloatOps F] in
/-- The adapter collects the kinds of the entries under their selectors, the last one for each. -/
theorem canonicalMetrics_eq {α : Type} (kind : α → Option (CanonicalMetricKind F))
    (m : SortedMap Str α) :
    canonicalMetrics kind m = .ofList (m.entries.filterMap fun entry =>
      (kind entry.2).map fun k => (canonical (splitSelector entry.1), k)) := by
  rw [canonicalMetrics, SortedMap.ofList, List.foldl_filterMap]
  congr
  funext out entry
  rw [addMetric]
  cases kind entry.2 <;> rfl

/-! ## What the summary shows -/

/-- The value under a name; one that is missing is zero. -/
def SummaryMetric.value (m : SummaryMetric F) (name : String) : F :=
  (m.values.find? name.toList).getD FloatOps.zero

/-- The kind and the values that a row of the summary shows. -/
def SummaryMetric.Tells (m : SummaryMetric F) : CanonicalMetricKind F → Prop
  | .counter count rate =>
      m.metricType = "counter".toList ∧ count = m.value "count" ∧ rate = m.value "rate"
  | .trend trend =>
      m.metricType = "trend".toList ∧
        trend.count = (m.values.find? "count".toList).map FloatOps.toU64 ∧
        trend.avg = m.value "avg" ∧ trend.min = m.value "min" ∧ trend.med = m.value "med" ∧
        trend.max = m.value "max" ∧ trend.p90 = m.value "p(90)" ∧ trend.p95 = m.value "p(95)" ∧
        trend.p99 = m.values.find? "p(99)".toList
  | .rate rate passes fails =>
      m.metricType = "rate".toList ∧ rate = m.value "rate" ∧
        passes = FloatOps.toU64 (m.value "passes") ∧ fails = FloatOps.toU64 (m.value "fails")
  | .gauge value min max =>
      m.metricType = "gauge".toList ∧ value = m.value "value" ∧ min = m.value "min" ∧
        max = m.value "max"

theorem SummaryMetric.kind_entry_eq_some_iff (m : SummaryMetric F) (kind : CanonicalMetricKind F) :
    m.entry.kind = some kind ↔ m.Tells kind := by
  rw [K6rsMetricEntry.kind, SummaryMetric.entry]
  constructor
  · intro h
    split_ifs at h with hcounter htrend hrate hgauge <;> cases h
    · exact ⟨hcounter, rfl, rfl⟩
    · exact ⟨htrend, rfl, rfl, rfl, rfl, rfl, rfl, rfl, rfl⟩
    · exact ⟨hrate, rfl, rfl, rfl⟩
    · exact ⟨hgauge, rfl, rfl, rfl⟩
  · intro h
    cases kind with
    | counter count rate =>
        obtain ⟨htype, rfl, rfl⟩ := h
        exact if_pos htype
    | trend trend =>
        obtain ⟨count, avg, min, med, max, p90, p95, p99⟩ := trend
        obtain ⟨htype, rfl, rfl, rfl, rfl, rfl, rfl, rfl, rfl⟩ := h
        have hcounter : m.metricType ≠ "counter".toList := htype.trans_ne (by decide)
        rw [if_neg hcounter, if_pos htype]
        rfl
    | rate rate passes fails =>
        obtain ⟨htype, rfl, rfl, rfl⟩ := h
        have hcounter : m.metricType ≠ "counter".toList := htype.trans_ne (by decide)
        have htrend : m.metricType ≠ "trend".toList := htype.trans_ne (by decide)
        rw [if_neg hcounter, if_neg htrend, if_pos htype]
        rfl
    | gauge value min max =>
        obtain ⟨htype, rfl, rfl, rfl⟩ := h
        have hcounter : m.metricType ≠ "counter".toList := htype.trans_ne (by decide)
        have htrend : m.metricType ≠ "trend".toList := htype.trans_ne (by decide)
        have hrate : m.metricType ≠ "rate".toList := htype.trans_ne (by decide)
        rw [if_neg hcounter, if_neg htrend, if_neg hrate, if_pos htype]
        rfl

namespace SummaryData

/-- The groups below the root. -/
def groups (data : SummaryData F) : List SummaryGroupData :=
  (KeyTree.walkChildren [] data.rootGroup.children).map fun e => e.2.value

/-- The checks, each with the group it is in. -/
def checks (data : SummaryData F) : List (SummaryGroupData × SummaryCheck) :=
  (data.rootGroup.walk []).flatMap fun e => e.2.value.checks.entries.map fun c => (e.2.value, c.2)

/-- Metrics with one selector show the same. -/
def MetricsApart (data : SummaryData F) : Prop :=
  ∀ name name' m m' kind kind', data.metrics.find? name = some m →
    data.metrics.find? name' = some m' → m.Tells kind → m'.Tells kind' →
    canonical (splitSelector name) = canonical (splitSelector name') → kind = kind'

/-- Groups with one path have one name and one identity. -/
def GroupsApart (data : SummaryData F) : Prop :=
  ∀ g ∈ data.groups, ∀ g' ∈ data.groups, g.path = g'.path → g.name = g'.name ∧ g.id = g'.id

/-- Checks with one path are equal and in groups with one path. -/
def ChecksApart (data : SummaryData F) : Prop :=
  ∀ e ∈ data.checks, ∀ e' ∈ data.checks, e.2.path = e'.2.path →
    e.1.path = e'.1.path ∧ e.2 = e'.2

/-- All that the adapted run has is in the summary; and the run has all of the summary but what
shares its selector or its path with something else. -/
structure ReadBack (data : SummaryData F) (run : CanonicalRun F) : Prop where
  metric : ∀ sel kind, run.metrics.find? sel = some kind →
    ∃ name m, data.metrics.find? name = some m ∧ sel = canonical (splitSelector name) ∧ m.Tells kind
  group : ∀ path group, run.groups.find? path = some group →
    ∃ g ∈ data.groups, path = g.path ∧ group = ⟨g.name, g.path, g.id⟩
  check : ∀ path check, run.checks.find? path = some check →
    ∃ e ∈ data.checks, path = e.2.path ∧
      check = ⟨e.2.name, e.1.path, e.2.id, e.2.passes, e.2.fails⟩
  every_metric : (∀ name m kind, data.metrics.find? name = some m → m.Tells kind →
    run.metrics.find? (canonical (splitSelector name)) = some kind) ↔ data.MetricsApart
  every_group : (∀ g ∈ data.groups, run.groups.find? g.path = some ⟨g.name, g.path, g.id⟩) ↔
    data.GroupsApart
  every_check : (∀ e ∈ data.checks, run.checks.find? e.2.path =
    some ⟨e.2.name, e.1.path, e.2.id, e.2.passes, e.2.fails⟩) ↔ data.ChecksApart

omit [FloatOps F] in
theorem find?_ofList_entries (metrics : KeyMap Str (SummaryMetric F)) (sel : Str) :
    (SortedMap.ofList (metrics.entries.map fun e => (e.1, e.2.entry))).find? sel =
      (metrics.find? sel).map SummaryMetric.entry := by
  apply Option.ext
  intro entry
  have hmem (k : Str) (x : K6rsMetricEntry F) :
      (k, x) ∈ metrics.entries.map (fun e => (e.1, e.2.entry)) ↔
        ∃ m, metrics.find? k = some m ∧ m.entry = x := by
    simp only [List.mem_map, Prod.mk.injEq, Prod.exists, KeyMap.find?_eq_some_iff]
    constructor
    · rintro ⟨_, m, hm, rfl, rfl⟩
      exact ⟨m, hm, rfl⟩
    · rintro ⟨m, hm, rfl⟩
      exact ⟨k, m, hm, rfl, rfl⟩
  have hfun (k : Str) (x x' : K6rsMetricEntry F)
      (hx : (k, x) ∈ metrics.entries.map fun e => (e.1, e.2.entry))
      (hx' : (k, x') ∈ metrics.entries.map fun e => (e.1, e.2.entry)) : x = x' := by
    obtain ⟨m, hm, rfl⟩ := (hmem k x).mp hx
    obtain ⟨m', hm', rfl⟩ := (hmem k x').mp hx'
    rw [Option.some.inj (hm.symm.trans hm')]
  rw [SortedMap.find?_ofList_iff hfun, hmem, Option.map_eq_some_iff]

/-- The kinds that the adapter collects, with their selectors. -/
def kinds (data : SummaryData F) : List (Str × CanonicalMetricKind F) :=
  (SortedMap.ofList (data.metrics.entries.map fun e => (e.1, e.2.entry))).entries.filterMap
    fun entry => entry.2.kind.map fun k => (canonical (splitSelector entry.1), k)

theorem mem_kinds (data : SummaryData F) (sel : Str) (kind : CanonicalMetricKind F) :
    (sel, kind) ∈ data.kinds ↔ ∃ name m, data.metrics.find? name = some m ∧
      sel = canonical (splitSelector name) ∧ m.Tells kind := by
  rw [kinds, List.mem_filterMap]
  constructor
  · rintro ⟨⟨name, entry⟩, hentry, hkind⟩
    rw [← SortedMap.find?_eq_some_iff, find?_ofList_entries] at hentry
    obtain ⟨m, hm, rfl⟩ := Option.map_eq_some_iff.mp hentry
    obtain ⟨k, hk, heq⟩ := Option.map_eq_some_iff.mp hkind
    cases heq
    exact ⟨name, m, hm, rfl, (m.kind_entry_eq_some_iff kind).mp hk⟩
  · rintro ⟨name, m, hm, rfl, htells⟩
    refine ⟨(name, m.entry), ?_, ?_⟩
    · rw [← SortedMap.find?_eq_some_iff, find?_ofList_entries, hm]
      rfl
    · rw [(m.kind_entry_eq_some_iff kind).mpr htells]
      rfl

theorem metricsApart_iff (data : SummaryData F) :
    data.MetricsApart ↔ ∀ sel kind kind', (sel, kind) ∈ data.kinds → (sel, kind') ∈ data.kinds →
      kind = kind' := by
  constructor
  · intro h sel kind kind' hkind hkind'
    obtain ⟨name, m, hm, hsel, htells⟩ := (data.mem_kinds sel kind).mp hkind
    obtain ⟨name', m', hm', hsel', htells'⟩ := (data.mem_kinds sel kind').mp hkind'
    exact h name name' m m' kind kind' hm hm' htells htells' (hsel.symm.trans hsel')
  · intro h name name' m m' kind kind' hm hm' htells htells' hsel
    exact h _ kind kind' ((data.mem_kinds _ kind).mpr ⟨name, m, hm, rfl, htells⟩)
      ((data.mem_kinds _ kind').mpr ⟨name', m', hm', hsel, htells'⟩)

omit [FloatOps F] in
/-- The walker collects the groups and the checks under their paths. -/
theorem collectRootGroupTree_eq (data : SummaryData F) :
    collectRootGroupTree data.rootGroup.toJson =
      ⟨.ofList (data.groups.map fun g => (g.path, ⟨g.name, g.path, g.id⟩)),
        .ofList (data.checks.map fun e =>
          (e.2.path, ⟨e.2.name, e.1.path, e.2.id, e.2.passes, e.2.fails⟩))⟩ := by
  rw [GroupMaps.collectRootGroupTree_toJson, groups, checks, List.map_map, List.map_flatMap]
  simp only [List.map_map, Function.comp_def]
  rfl

omit [FloatOps F] in
theorem groupsApart_iff (data : SummaryData F) :
    data.GroupsApart ↔ ∀ g ∈ data.groups, ∀ g' ∈ data.groups, g.path = g'.path →
      (⟨g.name, g.path, g.id⟩ : CanonicalGroup) = ⟨g'.name, g'.path, g'.id⟩ := by
  refine forall₂_congr fun g _ => forall₂_congr fun g' _ => forall_congr' fun hpath => ?_
  simp [hpath]

omit [FloatOps F] in
theorem checksApart_iff (data : SummaryData F) :
    data.ChecksApart ↔ ∀ e ∈ data.checks, ∀ e' ∈ data.checks, e.2.path = e'.2.path →
      (⟨e.2.name, e.1.path, e.2.id, e.2.passes, e.2.fails⟩ : CanonicalCheck) =
        ⟨e'.2.name, e'.1.path, e'.2.id, e'.2.passes, e'.2.fails⟩ := by
  refine forall₂_congr fun e _ => forall₂_congr fun e' _ => forall_congr' fun hpath => ?_
  obtain ⟨g, name, path, id, passes, fails⟩ := e
  obtain ⟨g', name', path', id', passes', fails'⟩ := e'
  simp only [CanonicalCheck.mk.injEq, SummaryCheck.mk.injEq] at hpath ⊢
  tauto

/-- Groups and checks whose names hold no colon have paths of their own. -/
theorem pathsApart_of_plainNames {H : Type} [Histogram F H] {md5 : Str → Str}
    {calls : List (Str × GroupCall F)} (h : PlainNames calls) {data : SummaryData F}
    (hroot : data.rootGroup = convertGroup md5 (groupTree calls : GroupNode F H).snapshot) :
    data.GroupsApart ∧ data.ChecksApart := by
  have hmirrors := GroupNode.mirrors_groupTree (F := F) (H := H) calls
  have hreads := readsBack (F := F) (H := H) md5 h
  rw [← hroot, collectRootGroupTree_eq] at hreads
  rw [groupsApart_iff, checksApart_iff, ← SortedMap.find?_ofList_map_all_iff,
    ← SortedMap.find?_ofList_map_all_iff]
  constructor
  · intro g hg
    refine (hreads.groups _ _).mpr ((hmirrors.mem_groupEntries md5 _ _).mp ?_)
    obtain ⟨e, he, rfl⟩ := List.mem_map.mp hg
    rw [hroot] at he
    exact List.mem_map.mpr ⟨e, he, rfl⟩
  · intro check hcheck
    refine (hreads.checks _ _).mpr ((hmirrors.mem_checkEntries md5 _ _).mp ?_)
    obtain ⟨e, he, hmem⟩ := List.mem_flatMap.mp hcheck
    obtain ⟨c, hc, rfl⟩ := List.mem_map.mp hmem
    rw [hroot] at he
    exact List.mem_flatMap.mpr ⟨e, he, List.mem_map.mpr ⟨c, hc, rfl⟩⟩

theorem readBack_of_maps {data : SummaryData F} {run : CanonicalRun F}
    (hmetrics : run.metrics = .ofList data.kinds)
    (hmaps : collectRootGroupTree data.rootGroup.toJson = ⟨run.groups, run.checks⟩) :
    data.ReadBack run := by
  rw [collectRootGroupTree_eq, GroupMaps.mk.injEq] at hmaps
  obtain ⟨hgroups, hchecks⟩ := hmaps
  refine ⟨?_, ?_, ?_, ?_, ?_, ?_⟩
  · intro sel kind h
    rw [hmetrics, SortedMap.find?_eq_some_iff] at h
    exact (data.mem_kinds sel kind).mp (SortedMap.mem_of_mem_ofList h)
  · intro path group h
    rw [← hgroups] at h
    exact SortedMap.exists_of_find?_ofList_map h
  · intro path check h
    rw [← hchecks] at h
    exact SortedMap.exists_of_find?_ofList_map h
  · rw [metricsApart_iff, ← SortedMap.find?_ofList_all_iff, hmetrics]
    constructor
    · intro h sel kind hkind
      obtain ⟨name, m, hm, rfl, htells⟩ := (data.mem_kinds sel kind).mp hkind
      exact h name m kind hm htells
    · intro h name m kind hm htells
      exact h _ kind ((data.mem_kinds _ kind).mpr ⟨name, m, hm, rfl, htells⟩)
  · rw [← hgroups, groupsApart_iff, SortedMap.find?_ofList_map_all_iff]
  · rw [← hchecks, checksApart_iff, SortedMap.find?_ofList_map_all_iff]

/-- The adapter accepts the export of a summary exactly when all of its floats are finite, and then
reads back its metrics, groups and checks. -/
theorem adapt_summaryExport {format : HarnessFormat F} {files : Files} {artifacts : RunArtifacts}
    {data : SummaryData F} (hfile : files artifacts.summaryExportPath =
      .ok (data.summaryExport format))
    (hreads : format.fromStr (data.summaryExport format) = some (data.toJson format.toBits))
    (hcoding : ∀ x, format.Finite x → format.ofBits (format.toBits x) = x) :
    ((∃ run, adapt files (K6rsSummary.parse format) artifacts = .ok run) ↔ data.Finite format) ∧
      ∀ run, adapt files (K6rsSummary.parse format) artifacts = .ok run →
        data.ReadBack run ∧ run.exitCode = artifacts.exitCode := by
  have hread : readToString files artifacts.summaryExportPath =
      .ok (data.summaryExport format) := by
    rw [readToString, hfile]
    rfl
  by_cases hfinite : data.Finite format
  · have hparse : K6rsSummary.parse format (data.summaryExport format) = .ok
        { durationMs := data.state.testRunDurationMs
          metrics := .ofList data.kinds
          maps := collectRootGroupTree data.rootGroup.toJson } := by
      rw [K6rsSummary.parse, hreads, Option.bind_some, ofJson_of_finite hcoding hfinite]
      simp only [canonicalMetrics_eq]
      rfl
    have hadapt : adapt files (K6rsSummary.parse format) artifacts = .ok
        { metrics := .ofList data.kinds
          exitCode := artifacts.exitCode
          checks := (collectRootGroupTree data.rootGroup.toJson).checks
          groups := (collectRootGroupTree data.rootGroup.toJson).groups
          eventStream := none } := by
      rw [adapt, hread, Except.ok_bind, hparse, Except.ok_bind]
      rfl
    refine ⟨iff_of_true ⟨_, hadapt⟩ hfinite, fun run h => ?_⟩
    rw [hadapt] at h
    cases h
    exact ⟨readBack_of_maps rfl rfl, rfl⟩
  · have hadapt : adapt files (K6rsSummary.parse format) artifacts =
        .error "parsing k6-rs summary export".toList := by
      rw [adapt, hread, Except.ok_bind, K6rsSummary.parse, hreads, Option.bind_some,
        ofJson_of_not_finite hcoding hfinite]
      rfl
    refine ⟨iff_of_false ?_ hfinite, fun run h => ?_⟩
    · rintro ⟨run, hrun⟩
      rw [hadapt] at hrun
      cases hrun
    · rw [hadapt] at h
      cases h

/-! ### The export of two metrics and two checks -/

/-- A check in a group, and one outside of any. -/
def loginTree : SummaryGroup :=
  .node ⟨[], [], ['r'], .ofList [("up".toList, ⟨"up".toList, "::up".toList, ['u'], 1, 0⟩)]⟩
    [("login".toList, .node ⟨"login".toList, "::login".toList, ['l'],
      .ofList [("ok".toList, ⟨"ok".toList, "::login::ok".toList, ['o'], 2, 1⟩)]⟩ [])]

def loginData : SummaryData Double where
  metrics := ((∅ : KeyMap Str (SummaryMetric Double)).upsert "iterations".toList fun _ =>
    .ofCounter 3 (FloatOps.ofRat (1 / 2))).upsert "vus".toList fun _ =>
      .ofGauge (FloatOps.ofRat 1) (FloatOps.ofRat 1) (FloatOps.ofRat 1)
  rootGroup := loginTree
  state := ⟨false, FloatOps.ofRat 6000⟩

/-- The texts of the floats of the summary. -/
def loginFloatText (bits : UInt64) : Str :=
  if bits = Double.toBits (FloatOps.ofRat 3) then "3.0".toList
  else if bits = Double.toBits (FloatOps.ofRat (1 / 2)) then "0.5".toList
  else if bits = Double.toBits (FloatOps.ofRat 6000) then "6000.0".toList
  else "1.0".toList

def loginPretty : Json → Str := JsonText.value loginFloatText

def loginText : Str := loginPretty (loginData.toJson Double.toBits)

@[irreducible] def loginFromStr (text : Str) : Option Json :=
  if text = loginText then some (loginData.toJson Double.toBits) else none

def loginFormat : HarnessFormat Double where
  toBits := Double.toBits
  formatRfc3339 _ := []
  floatText := loginFloatText
  fromStr := loginFromStr
  ofBits := Double.ofBits
  pretty := loginPretty
  serdeError _ := []

def loginFiles : Files := fun path => if path = ['s'] then .ok loginText else .error []

def loginArtifacts : RunArtifacts := ⟨['r'], ['s'], 0⟩

theorem adapt_summaryExport_login :
    ((∃ run, adapt loginFiles (K6rsSummary.parse loginFormat) loginArtifacts = .ok run) ↔
        loginData.Finite loginFormat) ∧
      ∀ run, adapt loginFiles (K6rsSummary.parse loginFormat) loginArtifacts = .ok run →
        loginData.ReadBack run ∧ run.exitCode = loginArtifacts.exitCode := by
  have hexport : loginData.summaryExport loginFormat = loginText := by
    rw [summaryExport]
    rfl
  have hfile : loginFiles loginArtifacts.summaryExportPath =
      .ok (loginData.summaryExport loginFormat) := by
    rw [hexport]
    exact if_pos rfl
  have hlogin : loginFromStr loginText = some (loginData.toJson Double.toBits) := by
    rw [loginFromStr, if_pos rfl]
  have hreads : loginFormat.fromStr (loginData.summaryExport loginFormat) =
      some (loginData.toJson loginFormat.toBits) :=
    (congrArg loginFormat.fromStr hexport).trans hlogin
  exact adapt_summaryExport hfile hreads fun x _ => Double.ofBits_toBits x

end SummaryData

end K6Rs
