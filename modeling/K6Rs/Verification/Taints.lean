import K6Rs.Model.Taints
import K6Rs.Verification.Metrics.Gauges
import K6Rs.Verification.Summary.Shown

/-! The taint that the status reports after a history of writes and updates. The taints are kept by
the key that the user wrote, and looked up among the names that the summary shows; a key in another
spelling is never found there. -/

namespace K6Rs

open FloatOps MetricSelector

/-! ## Histories of writes -/

section Histories

variable {F H : Type} [FloatOps F] [FloatBits F] [Histogram F H]

omit [FloatBits F] in
theorem mem_storedKeys_write (reg : MetricsRegistry F H) (s : Sample F) (k : Str) :
    k ∈ (reg.write s).storedKeys ↔ k ∈ reg.storedKeys ∨ s.key = k := by
  rw [MetricsRegistry.write_eq]
  cases s.observation <;>
    simp only [MetricsRegistry.storedKeys, MetricsRegistry.counterAdd, MetricsRegistry.rateAdd,
      MetricsRegistry.trendAdd, List.mem_append, KeyMap.mem_keys_upsert, @eq_comm _ s.key] <;>
    tauto

/-- The cells are those of the samples. -/
theorem mem_storedKeys_recordAll (ws : List (Write F)) (k : Str) :
    k ∈ (MetricsRegistry.recordAll ws : MetricsRegistry F H).storedKeys ↔
      ∃ s, .sample s ∈ ws ∧ s.key = k := by
  induction ws using List.reverseRecOn with
  | nil => simp [MetricsRegistry.recordAll, MetricsRegistry.storedKeys, MetricsRegistry.new]
  | append_singleton ws w ih =>
      rw [recordAll_concat]
      cases w with
      | sample s =>
          rw [MetricsRegistry.apply, mem_storedKeys_write, ih]
          simp [or_and_right, exists_or]
      | gauge name value =>
          change k ∈ (MetricsRegistry.recordAll ws : MetricsRegistry F H).storedKeys ↔ _
          rw [ih]
          simp

theorem mem_gauges_recordAll (ws : List (Write F)) (k : Str) :
    k ∈ (MetricsRegistry.recordAll ws : MetricsRegistry F H).gauges.entries.map Prod.fst ↔
      ∃ value, .gauge k value ∈ ws := by
  induction ws using List.reverseRecOn with
  | nil => simp [MetricsRegistry.recordAll, MetricsRegistry.new]
  | append_singleton ws w ih =>
      rw [recordAll_concat]
      cases w with
      | sample s =>
          have hgauges : ((MetricsRegistry.recordAll ws : MetricsRegistry F H).apply
              (.sample s)).gauges = (MetricsRegistry.recordAll ws :
              MetricsRegistry F H).gauges := by
            rw [MetricsRegistry.apply, MetricsRegistry.write_eq]
            cases s.observation <;> rfl
          rw [hgauges, ih]
          simp
      | gauge name value =>
          rw [MetricsRegistry.apply, MetricsRegistry.gaugeSet, KeyMap.mem_keys_upsert, ih]
          simp [or_comm, exists_or]

end Histories

/-! ## Runs of the control -/

inductive TaintEvent (F : Type) where
  | write (w : Write F)
  | update (elapsedSecs : F) (groupTree : GroupSnapshot F)

/-- The write of an event, if it is one. -/
def TaintEvent.writes {F : Type} : TaintEvent F → Option (Write F)
  | .write w => some w
  | .update .. => none

section Runs

variable {F H : Type} [FloatOps F] [FloatBits F] [FloatParse F] [Histogram F H]
  (md5 : Str → Str) (isTerminal : Bool)

def TaintControl.step (c : TaintControl F H) : TaintEvent F → TaintControl F H
  | .write w => { c with registry := c.registry.apply w }
  | .update elapsedSecs groupTree => c.updateTaints md5 isTerminal elapsedSecs groupTree

/-- The control after a run of events, from its construction. -/
def TaintControl.run (thresholds : KeyMap Str (List Threshold)) (events : List (TaintEvent F)) :
    TaintControl F H :=
  events.foldl (step md5 isTerminal) (new thresholds)

theorem run_concat (thresholds : KeyMap Str (List Threshold)) (events : List (TaintEvent F))
    (e : TaintEvent F) :
    (TaintControl.run md5 isTerminal thresholds (events ++ [e]) : TaintControl F H) =
      (TaintControl.run md5 isTerminal thresholds events).step md5 isTerminal e := by
  simp [TaintControl.run]

omit [FloatBits F] in
theorem updateTaints_frame (c : TaintControl F H) (elapsedSecs : F) (groupTree : GroupSnapshot F) :
    (c.updateTaints md5 isTerminal elapsedSecs groupTree).registry = c.registry ∧
      (c.updateTaints md5 isTerminal elapsedSecs groupTree).thresholds = c.thresholds := by
  rw [TaintControl.updateTaints]
  split <;> exact ⟨rfl, rfl⟩

/-- The registry holds the writes of the run, and the thresholds stay. -/
theorem run_frame (thresholds : KeyMap Str (List Threshold)) (events : List (TaintEvent F)) :
    (TaintControl.run md5 isTerminal thresholds events : TaintControl F H).registry =
        .recordAll (events.filterMap TaintEvent.writes) ∧
      (TaintControl.run md5 isTerminal thresholds events : TaintControl F H).thresholds =
        thresholds := by
  induction events using List.reverseRecOn with
  | nil => exact ⟨rfl, rfl⟩
  | append_singleton events e ih =>
      rw [run_concat, List.filterMap_append]
      cases e with
      | write w =>
          refine ⟨?_, ih.2⟩
          rw [TaintControl.step, ih.1]
          exact (recordAll_concat _ w).symm
      | update elapsedSecs groupTree =>
          obtain ⟨hreg, hthresholds⟩ := updateTaints_frame md5 isTerminal
            (TaintControl.run md5 isTerminal thresholds events : TaintControl F H) elapsedSecs
              groupTree
          rw [TaintControl.step, hreg, hthresholds, List.filterMap_cons_none rfl,
            List.filterMap_nil, List.append_nil]
          exact ih

/-- Without thresholds nothing is ever tainted. -/
theorem run_of_no_thresholds {thresholds : KeyMap Str (List Threshold)}
    (h : thresholds.entries = []) (events : List (TaintEvent F)) :
    (TaintControl.run md5 isTerminal thresholds events : TaintControl F H).taintedMetrics = ∅ := by
  induction events using List.reverseRecOn with
  | nil => rfl
  | append_singleton events e ih =>
      rw [run_concat]
      cases e with
      | write w => exact ih
      | update elapsedSecs groupTree =>
          have hthresholds := (run_frame (H := H) md5 isTerminal thresholds events).2
          rw [TaintControl.step, TaintControl.updateTaints, if_pos (by rw [hthresholds, h]; rfl),
            ih]

/-! ## What an update taints -/

/-- Some threshold fails on the snapshot whose key meets `p`. -/
def SomeFails (thresholds : KeyMap Str (List Threshold)) (snapshot : MetricsSnapshot F H)
    (p : Str → Prop) : Prop :=
  ∃ t ∈ allThresholds thresholds,
    p t.1 ∧ (evaluateOne t.1 t.2.expression snapshot).passed = false

omit [FloatBits F] in
theorem evaluateOne_metric (metric expr : Str) (snapshot : MetricsSnapshot F H) :
    (evaluateOne metric expr snapshot).metric = metric := by
  rw [evaluateOne]
  cases parseCondition (F := F) expr <;> rfl

omit [FloatBits F] in
/-- A metric is tainted by one failing threshold. -/
theorem flagged_taints (c : TaintControl F H) (snapshot : MetricsSnapshot F H) (p : Str → Prop) :
    (c.taints snapshot).Flagged p ↔ SomeFails c.thresholds snapshot p := by
  have hperm := List.perm_insertionSort (fun a b : ThresholdResult F => a.metric ≤ b.metric)
    ((allThresholds c.thresholds).map fun t => evaluateOne t.1 t.2.expression snapshot)
  rw [TaintControl.taints, evaluate, KeyMap.flagged_foldl_upsert_or,
    or_iff_right (KeyMap.not_flagged_empty p)]
  simp only [hperm.mem_iff, List.mem_map, Bool.not_eq_true']
  constructor
  · rintro ⟨-, ⟨t, ht, rfl⟩, hp, hfails⟩
    rw [evaluateOne_metric] at hp
    exact ⟨t, ht, hp, hfails⟩
  · rintro ⟨t, ht, hp, hfails⟩
    exact ⟨_, ⟨t, ht, rfl⟩, by rwa [evaluateOne_metric], hfails⟩

/-- The key finds samples: the live reads by the key select their cell, or it is another spelling of
the name of a gauge. -/
def KeyRecorded (ws : List (Write F)) (k : Str) : Prop :=
  (∃ s, .sample s ∈ ws ∧ storedMatchesQuery s.key (parseQuery k) k = true) ∨
    ∃ name value, .gauge name value ∈ ws ∧ metricNamesMatch k name = true

def CanonicalKey (k : Str) : Prop := (parseQuery k).map canonical = some k

/-- The key finds samples, and is spelled as the summary shows them. -/
def KeyShown (ws : List (Write F)) (k : Str) : Prop :=
  (∃ s, .sample s ∈ ws ∧ storedMatchesQuery s.key (parseQuery k) k = true) ∧ CanonicalKey k ∨
    (∃ value, .gauge k value ∈ ws) ∧ ('{' ∉ k ∨ CanonicalKey k)

omit [FloatOps F] [FloatBits F] [FloatParse F] [Histogram F H] in
theorem KeyShown.recorded {ws : List (Write F)} {k : Str} (h : KeyShown ws k) :
    KeyRecorded ws k := by
  rcases h with ⟨hsample, -⟩ | ⟨⟨value, hgauge⟩, -⟩
  · exact .inl hsample
  · exact .inr ⟨k, value, hgauge, by simp [metricNamesMatch]⟩

omit [FloatOps F] [FloatBits F] [FloatParse F] [Histogram F H] in
theorem canonicalKey_iff {k : Str} {query : MetricSelector} (hq : parse k = .ok query) :
    CanonicalKey k ↔ k = canonical query := by
  rw [CanonicalKey, parseQuery, hq]
  simp [Except.toOption, eq_comm]

omit [FloatOps F] [FloatBits F] [FloatParse F] [Histogram F H] in
theorem storedMatchesQuery_eq {k : Str} {query : MetricSelector} (hq : parse k = .ok query)
    (stored : Str) : storedMatchesQuery stored (parseQuery k) k = subsetMatches query stored := by
  rw [parseQuery, hq, subsetMatches]
  cases hstored : parse stored with
  | ok sel => simp [Except.toOption, storedMatchesQuery, hstored]
  | error e =>
      have hne : stored ≠ k := by
        rintro rfl
        rw [hq] at hstored
        cases hstored
      simp [Except.toOption, storedMatchesQuery, hstored, hne]

variable {thresholds : KeyMap Str (List Threshold)}

omit [FloatParse F] in
/-- The summary shows a threshold key exactly when its samples are shown in its own spelling. -/
theorem observed_iff (ws : List (Write F)) (elapsedSecs duration : F) (groupTree : GroupSnapshot F)
    {k : Str} (hkey : k ∈ thresholds.entries.map Prod.fst) {query : MetricSelector}
    (hq : parse k = .ok query) :
    ((buildSummaryData md5 isTerminal
        ((MetricsRegistry.recordAll ws : MetricsRegistry F H).snapshot elapsedSecs) groupTree
        duration (some thresholds)).metrics.find? k).isSome ↔ KeyShown ws k := by
  rw [Option.isSome_iff_ne_none, ne_eq, KeyMap.find?_eq_none_iff, not_not,
    mem_keys_buildSummaryData_iff _ _ hkey hq, mem_gauges_recordAll, KeyShown,
    canonicalKey_iff hq, and_comm]
  simp only [mem_storedKeys_recordAll, storedMatchesQuery_eq hq]
  apply or_congr (and_congr_left' _) Iff.rfl
  constructor
  · rintro ⟨-, ⟨s, hs, rfl⟩, hmatches⟩
    exact ⟨s, hs, hmatches⟩
  · rintro ⟨s, hs, hmatches⟩
    exact ⟨_, ⟨s, hs, rfl⟩, hmatches⟩

omit [FloatOps F] in
theorem key_of_mem_allThresholds {t : Str × Threshold} (ht : t ∈ allThresholds thresholds) :
    t.1 ∈ thresholds.entries.map Prod.fst := by
  rw [allThresholds, List.mem_flatMap] at ht
  obtain ⟨e, he, ht⟩ := ht
  obtain ⟨threshold, -, rfl⟩ := List.mem_map.mp ht
  exact List.mem_map_of_mem he

section Status

variable (hkeys : ∀ k ∈ thresholds.entries.map Prod.fst, (parse k).isOk = true)
  (events : List (TaintEvent F)) (elapsedSecs : F) (groupTree : GroupSnapshot F) (e : Execution)
  (activeVus initializedVus : ℕ) (cancelled : Bool)

include hkeys

/-- The status is tainted when a threshold fails whose key is spelled as the summary shows it. -/
theorem status_tainted_iff :
    ((TaintControl.run md5 isTerminal thresholds (events ++ [.update elapsedSecs groupTree]) :
        TaintControl F H).status e activeVus initializedVus cancelled).tainted = true ↔
      SomeFails thresholds
        ((MetricsRegistry.recordAll (events.filterMap TaintEvent.writes) :
          MetricsRegistry F H).snapshot elapsedSecs)
        (KeyShown (events.filterMap TaintEvent.writes)) := by
  obtain ⟨hreg, hthresholds⟩ := run_frame (H := H) md5 isTerminal thresholds events
  rw [TaintControl.status, TaintControl.statusWith]
  dsimp only
  rw [KeyMap.any_iff_flagged, run_concat, TaintControl.step]
  by_cases hempty : thresholds.entries = []
  · have hnone : allThresholds thresholds = [] := by rw [allThresholds, hempty]; rfl
    rw [TaintControl.updateTaints, if_pos (by rw [hthresholds, hempty]; rfl),
      run_of_no_thresholds md5 isTerminal hempty, SomeFails, hnone]
    simp [KeyMap.not_flagged_empty]
  · rw [TaintControl.updateTaints, if_neg (by rwa [hthresholds, List.isEmpty_iff])]
    dsimp only
    rw [KeyMap.flagged_retain, flagged_taints, hreg, hthresholds]
    refine exists_congr fun t => and_congr_right fun ht => and_congr_left' ?_
    have hkey := key_of_mem_allThresholds ht
    cases hparse : parse t.1 with
    | error err => simpa [hparse, Except.isOk, Except.toBool] using hkeys t.1 hkey
    | ok query =>
        refine (and_iff_right trivial).trans ?_
        exact observed_iff md5 isTerminal _ elapsedSecs zero groupTree hkey hparse

/-- The status is tainted exactly when a threshold on a metric with samples fails, unless every such
failing threshold has a key in another spelling than the summary shows. -/
theorem tainted_iff_fails_iff :
    let c : TaintControl F H :=
      .run md5 isTerminal thresholds (events ++ [.update elapsedSecs groupTree])
    let ws := events.filterMap TaintEvent.writes
    let snapshot := (MetricsRegistry.recordAll ws : MetricsRegistry F H).snapshot elapsedSecs
    ((c.status e activeVus initializedVus cancelled).tainted = true ↔
        SomeFails thresholds snapshot (KeyRecorded ws)) ↔
      (SomeFails thresholds snapshot (KeyRecorded ws) →
        SomeFails thresholds snapshot (KeyShown ws)) := by
  intro c ws snapshot
  have hshown : SomeFails thresholds snapshot (KeyShown ws) →
      SomeFails thresholds snapshot (KeyRecorded ws) := by
    rintro ⟨t, ht, hrecorded, hfails⟩
    exact ⟨t, ht, hrecorded.recorded, hfails⟩
  rw [status_tainted_iff md5 isTerminal hkeys]
  exact ⟨fun h => h.mpr, fun h => ⟨hshown, h⟩⟩

end Status

end Runs

section Example

/-- A sample of `hits` with two tags. -/
def twoTagHit : List (TaintEvent ℚ) :=
  [.write (.sample ⟨"hits".toList, .pairs [("a".toList, "1".toList), ("b".toList, "2".toList)],
    .counter 1⟩)]

/-- One threshold on `hits` that a sample makes fail. -/
def hitsThreshold (key : Str) : KeyMap Str (List Threshold) :=
  ⟨[(key, [⟨"count<1".toList, false, 0⟩])], List.nodup_singleton _⟩

def rootTree : GroupSnapshot ℚ := (GroupNode.root (F := ℚ) (H := List ℕ)).snapshot

def hitsRun (key : Str) : TaintControl ℚ (List ℕ) :=
  .run id false (hitsThreshold key) (twoTagHit ++ [.update 1 rootTree])

def idleExecution : Execution := ⟨3, false, none, none, false⟩

theorem tainted_iff_fails_hits :
    let ws := twoTagHit.filterMap TaintEvent.writes
    let snapshot := (MetricsRegistry.recordAll ws : MetricsRegistry ℚ (List ℕ)).snapshot 1
    (((hitsRun "hits{a:1}".toList).status idleExecution 0 1 false).tainted = true ↔
        SomeFails (hitsThreshold "hits{a:1}".toList) snapshot (KeyRecorded ws)) ↔
      (SomeFails (hitsThreshold "hits{a:1}".toList) snapshot (KeyRecorded ws) →
        SomeFails (hitsThreshold "hits{a:1}".toList) snapshot (KeyShown ws)) :=
  tainted_iff_fails_iff (F := ℚ) (H := List ℕ) id false (by decide) twoTagHit 1 rootTree
    idleExecution 0 1 false

/-- The key `hits{b:2, a:1}` fails on the sample and is not reported. -/
theorem not_tainted_iff_fails_hits :
    let ws := twoTagHit.filterMap TaintEvent.writes
    let snapshot := (MetricsRegistry.recordAll ws : MetricsRegistry ℚ (List ℕ)).snapshot 1
    (∀ k ∈ (hitsThreshold "hits{b:2, a:1}".toList).entries.map Prod.fst, (parse k).isOk = true) ∧
      ¬(((hitsRun "hits{b:2, a:1}".toList).status idleExecution 0 1 false).tainted = true ↔
        SomeFails (hitsThreshold "hits{b:2, a:1}".toList) snapshot (KeyRecorded ws)) := by
  intro ws snapshot
  have huntainted :
      ((hitsRun "hits{b:2, a:1}".toList).status idleExecution 0 1 false).tainted = false := by
    decide +kernel
  have hfails : SomeFails (hitsThreshold "hits{b:2, a:1}".toList) snapshot (KeyRecorded ws) := by
    refine ⟨_, .head _, .inl ⟨_, .head _, ?_⟩, ?_⟩
    · decide
    · decide +kernel
  refine ⟨by decide, ?_⟩
  rw [huntainted]
  exact fun h => absurd (h.mpr hfails) Bool.false_ne_true

end Example

end K6Rs
