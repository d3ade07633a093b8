import K6Rs.Model.MetricContains
import K6Rs.Model.Sink
import K6Rs.Verification.Metrics.Sink
import K6Rs.Verification.Summary.Submetric

/-! # Contents of metrics

The three answers are compared name by name. A row of the summary goes by its whole key or by the
name alone, so the text of its tags can tell as well. -/

namespace K6Rs

open MetricSelector MetricContains

/-- The event stream, the registry and the summary tell the same of a key. -/
def SameContents (calls : List (Str × Str)) (kind : EventStream.MetricKind) (key : Str)
    (synthesized : Bool) : Prop :=
  classifyContains kind (baseName key) = (ofCalls calls).contains key ∧
    summaryContains kind (summaryName synthesized key) = (ofCalls calls).contains key

/-- The names that the registry takes for times. -/
def NamesTime (base : Str) : Prop :=
  ("http_req_".toList <+: base ∧ base ≠ "http_req_failed".toList) ∨ base ∈ timeNames

/-! ## Base names -/

theorem isPrefix_baseName (key : Str) : baseName key <+: key := List.takeWhile_prefix _

/-- A text without a brace is a prefix of the key when it is one of the base name. -/
theorem prefix_baseName_iff {pat : Str} (hpat : '{' ∉ pat) (key : Str) :
    pat <+: baseName key ↔ pat <+: key := by
  constructor
  · exact fun h => h.trans (isPrefix_baseName key)
  · rintro ⟨rest, rfl⟩
    have hall : ∀ c ∈ pat, decide (c ≠ '{') = true :=
      fun c hc => decide_eq_true (ne_of_mem_of_not_mem hc hpat)
    rw [baseName, List.takeWhile_append_of_pos hall]
    exact List.prefix_append _ _

/-- The name of an event is the base name of its key. -/
theorem name_of_splitCanonicalForSink {key name : Str} {tags : TagMap}
    (h : splitCanonicalForSink key = some (name, tags)) : name = baseName key := by
  unfold splitCanonicalForSink at h
  cases hfind : Str.findByte '{' key with
  | none =>
      rw [hfind] at h
      cases h
      rw [baseName, Str.takeWhile_of_find_none (Option.map_eq_none_iff.mp hfind)]
  | some i =>
      obtain ⟨u, v, rfl, hu, rfl⟩ := mem_findByte hfind
      have hbase : baseName (u ++ '{' :: v) = u := by
        rw [baseName, Str.takeWhile_append_cons, List.takeWhile_eq_self_iff.mpr]
        exact fun c hc => decide_eq_true (ne_of_mem_of_not_mem hc hu)
      rw [hbase]
      simp only [hfind, byteSlice_name, Option.bind_eq_bind, Option.bind_some] at h
      split at h
      · cases h
        rfl
      · obtain ⟨body, -, hbody⟩ := Option.bind_eq_some_iff.mp h
        cases hbody
        rfl

/-! ## The three answers -/

/-- The first call for a name counts. -/
theorem find?_ofCalls (calls : List (Str × Str)) (name : Str) :
    (ofCalls calls).find? name = calls.lookup name := by
  induction calls using List.reverseRecOn with
  | nil => rfl
  | append_singleton calls call ih =>
      obtain ⟨called, value⟩ := call
      rw [ofCalls, List.foldl_append, List.foldl_cons, List.foldl_nil, ← ofCalls, registerContains,
        List.lookup_append, ← ih]
      by_cases hname : name = called
      · subst hname
        rw [KeyMap.find?_upsert_self, List.lookup_cons_self]
        cases (ofCalls calls).find? name <;> rfl
      · rw [KeyMap.find?_upsert_of_ne _ _ hname, List.lookup_cons, beq_eq_false_iff_ne.mpr hname]
        simp

theorem contains_of_registered {calls : List (Str × Str)} {key value : Str}
    (h : calls.lookup (baseName key) = some value) : (ofCalls calls).contains key = value := by
  rw [contains, find?_ofCalls, h]

theorem contains_of_not_registered {calls : List (Str × Str)} {key : Str}
    (h : calls.lookup (baseName key) = none)
    (hdata : ¬(baseName key = "data_sent".toList ∨ baseName key = "data_received".toList)) :
    NamesTime (baseName key) ∧ (ofCalls calls).contains key = "time".toList ∨
      ¬NamesTime (baseName key) ∧ (ofCalls calls).contains key = "default".toList := by
  rw [contains, find?_ofCalls, h]
  simp only [if_neg hdata, List.isPrefixOf_iff_prefix]
  by_cases htime : NamesTime (baseName key)
  · exact .inl ⟨htime, if_pos htime⟩
  · exact .inr ⟨htime, if_neg htime⟩

theorem classifyContains_data (kind : EventStream.MetricKind) {base : Str}
    (h : base = "data_sent".toList ∨ base = "data_received".toList) :
    classifyContains kind base = "data".toList := by
  rcases h with rfl | rfl <;> cases kind <;> decide

/-- The names that the event stream takes for times of trends. -/
def StreamsTime (base : Str) : Prop :=
  ¬"ws_msgs_".toList <+: base ∧
    ("http_req".toList <+: base ∨ "duration".toList <:+: base ∨ "grpc_req".toList <+: base ∨
      "ws_connecting".toList <+: base ∨ "ws_ping".toList <+: base)

theorem classifyContains_cases (kind : EventStream.MetricKind) {base : Str}
    (hdata : ¬(base = "data_sent".toList ∨ base = "data_received".toList)) :
    kind = .trend ∧ StreamsTime base ∧ classifyContains kind base = "time".toList ∨
      ¬(kind = .trend ∧ StreamsTime base) ∧ classifyContains kind base = "default".toList := by
  unfold classifyContains
  simp only [List.isPrefixOf_iff_prefix, Str.isSome_findText_iff]
  by_cases hmsgs : "ws_msgs_".toList <+: base
  · exact .inr ⟨fun h => h.2.1 hmsgs, by rw [if_pos (.inr (.inr hmsgs)), if_pos hmsgs]⟩
  · rw [if_neg fun h => h.elim (hdata ∘ .inl) fun h => h.elim (hdata ∘ .inr) hmsgs]
    by_cases htime : kind = .trend ∧ StreamsTime base
    · exact .inl ⟨htime.1, htime.2, if_pos ⟨htime.1, htime.2.2⟩⟩
    · exact .inr ⟨htime, if_neg fun h => htime ⟨h.1, hmsgs, h.2⟩⟩

theorem summaryContains_cases (kind : EventStream.MetricKind) (name : Str) :
    kind = .trend ∧ ("http_req".toList <+: name ∨ "duration".toList <:+: name) ∧
        summaryContains kind name = "time".toList ∨
      ¬(kind = .trend ∧ ("http_req".toList <+: name ∨ "duration".toList <:+: name)) ∧
        summaryContains kind name = "default".toList := by
  have hname : ("http_req".toList.isPrefixOf name ||
      (Str.findText "duration".toList name).isSome) = true ↔
      "http_req".toList <+: name ∨ "duration".toList <:+: name := by
    rw [Bool.or_eq_true, List.isPrefixOf_iff_prefix, Str.isSome_findText_iff]
  cases kind with
  | trend =>
      by_cases htime : "http_req".toList <+: name ∨ "duration".toList <:+: name
      · exact .inl ⟨rfl, htime, if_pos (hname.mpr htime)⟩
      · exact .inr ⟨fun h => htime h.2, if_neg (mt hname.mp htime)⟩
  | counter | gauge | rate => exact .inr ⟨fun h => EventStream.MetricKind.noConfusion h.1, rfl⟩

/-! ## Rows of the summary -/

theorem baseName_canonical {sel : MetricSelector} (h : Readable sel) :
    baseName (canonical sel) = sel.name := by
  have hname := (not_mem_of_not_containsReserved (wellFormed_of_parse h).name_clean).1
  have hself : baseName sel.name = sel.name :=
    List.takeWhile_eq_self_iff.mpr fun c hc => decide_eq_true (ne_of_mem_of_not_mem hc hname)
  rw [canonical_eq]
  split
  · exact hself
  · rw [baseName, Str.takeWhile_append_cons]
    exact hself

section Rows

variable {F H : Type} [FloatOps F] [Histogram F H] (snapshot : MetricsSnapshot F H)

/-- What a row tells is what the summary tells of its key. -/
def TellsContents {F : Type} (key : Str) (metric : SummaryMetric F) : Prop :=
  ∃ kind synthesized, metric.metricType = EventStream.MetricKind.asStr kind ∧
    metric.contains = summaryContains kind (summaryName synthesized key)

omit [FloatOps F] [Histogram F H] in
theorem tellsContents_showRows {μ : Type} {shown : Str → Bool}
    {toMetric : Str → μ → SummaryMetric F}
    (hmetric : ∀ key row, TellsContents key (toMetric key row)) (rows : List (Str × μ))
    {metrics : KeyMap Str (SummaryMetric F)}
      (h : ∀ key metric, metrics.find? key = some metric → TellsContents key metric) :
    ∀ key metric, (showRows shown toMetric rows metrics).find? key = some metric →
    TellsContents key metric := by
  rw [showRows]
  induction rows.filter fun row => shown row.1 generalizing metrics with
  | nil => exact h
  | cons row rows ih => exact ih (KeyMap.forall_upsert h (hmetric row.1 row.2))

theorem tellsContents_synthesize {sel : MetricSelector} (hsel : Readable sel)
    {metric : SummaryMetric F}
    (h : synthesizeSubsetMetric sel snapshot = some metric) :
    TellsContents (canonical sel) metric := by
  have hname : summaryName true (canonical sel) = sel.name := baseName_canonical hsel
  unfold synthesizeSubsetMetric at h
  split at h
  · cases h
    exact ⟨.trend, true, rfl, by rw [hname]; rfl⟩
  dsimp only at h
  split at h
  · cases h
    exact ⟨.counter, true, rfl, rfl⟩
  split at h
  · cases h
    exact ⟨.rate, true, rfl, rfl⟩
  · cases h

/-- Every row of the data object tells what the summary tells of its key. -/
theorem tellsContents_buildSummaryData (md5 : Str → Str) (isTerminal : Bool)
    (groupTree : GroupSnapshot F)
    (durationSecs : F) (thresholds : Option (KeyMap Str (List Threshold))) {key : Str}
      {metric : SummaryMetric F}
    (h : (buildSummaryData md5 isTerminal snapshot groupTree durationSecs
      thresholds).metrics.find? key = some metric) :
    TellsContents key metric := by
  have hrows : ∀ key metric, (snapshotRows snapshot thresholds).find? key = some metric →
      TellsContents key metric := by
    rw [snapshotRows]
    refine tellsContents_showRows (fun key row => ⟨.trend, false, rfl, rfl⟩) _ ?_
    refine tellsContents_showRows (fun key row => ⟨.rate, false, rfl, rfl⟩) _ ?_
    refine tellsContents_showRows (fun key row => ⟨.gauge, false, rfl, rfl⟩) _ ?_
    refine tellsContents_showRows (fun key row => ⟨.counter, false, rfl, rfl⟩) _ ?_
    rintro _ _ ⟨⟩
  have hselectors := readable_thresholdSelectors thresholds
  rw [buildSummaryData, synthesizeRows] at h
  revert key metric
  generalize snapshotRows snapshot thresholds = metrics at hrows
  revert hselectors
  induction thresholdSelectors thresholds generalizing metrics with
  | nil => exact fun _ _ _ h => hrows _ _ h
  | cons sel selectors ih =>
      intro hselectors
      rw [List.forall_mem_cons] at hselectors
      refine ih _ ?_ hselectors.2
      dsimp only
      cases hsynth : synthesizeSubsetMetric sel snapshot with
      | none => exact hrows
      | some synth =>
          have hsel := tellsContents_synthesize snapshot hselectors.1 hsynth
          exact KeyMap.forall_upsert hrows hsel

end Rows

/-! ## Agreement -/

theorem prefix_apart {s pat pat' : Str} (h : pat <+: s) (h' : ¬pat <+: pat' ∧ ¬pat' <+: pat) :
    ¬pat' <+: s :=
  fun hpat' => (List.prefix_or_prefix_of_prefix h hpat').elim h'.1 h'.2

/-- What the registry takes for a time by its name, the event stream does too. -/
theorem streamsTime_of_namesTime {base : Str} (h : NamesTime base) : StreamsTime base := by
  rcases h with ⟨hhttp, -⟩ | hname
  · exact ⟨prefix_apart hhttp (by decide), .inl (List.IsPrefix.trans (by decide) hhttp)⟩
  · have hall : ∀ name ∈ timeNames, StreamsTime name := by
      unfold StreamsTime
      decide
    exact hall base hname

/-- The summary does too, but for two names. -/
theorem summarizesTime_of_namesTime {base : Str} (h : NamesTime base) :
    ("http_req".toList <+: base ∨ "duration".toList <:+: base) ∨ "ws_connecting".toList <+: base ∨
      "ws_ping".toList <+: base := by
  rcases h with ⟨hhttp, -⟩ | hname
  · exact .inl (.inl (List.IsPrefix.trans (by decide) hhttp))
  · have hall : ∀ name ∈ timeNames, ("http_req".toList <+: name ∨ "duration".toList <:+: name) ∨
        "ws_connecting".toList <+: name ∨ "ws_ping".toList <+: name := by decide
    exact hall base hname

theorem prefix_summaryName_iff (synthesized : Bool) (key : Str) :
    "http_req".toList <+: summaryName synthesized key ↔ "http_req".toList <+: baseName key := by
  cases synthesized with
  | true => exact Iff.rfl
  | false => exact (prefix_baseName_iff (by decide) key).symm

theorem infix_summaryName (synthesized : Bool) {key pat : Str} (h : pat <:+: baseName key) :
    pat <:+: summaryName synthesized key := by
  cases synthesized with
  | true => exact h
  | false => exact h.trans (isPrefix_baseName key).isInfix

/-- Byte counters are `data` for the event stream and nothing but `time` or `default` for the
summary. -/
theorem not_sameContents_data {calls : List (Str × Str)} {kind : EventStream.MetricKind} {key : Str}
    {synthesized : Bool} (h : baseName key = "data_sent".toList ∨
      baseName key = "data_received".toList) :
    ¬SameContents calls kind key synthesized := by
  rintro ⟨hstream, hsummary⟩
  rw [← hstream, classifyContains_data kind h] at hsummary
  rcases summaryContains_cases kind (summaryName synthesized key) with ⟨-, -, htime⟩ | ⟨-, hdefault⟩
  · exact absurd (hsummary.symm.trans htime) (by decide)
  · exact absurd (hsummary.symm.trans hdefault) (by decide)

/-- A name that the summary takes for a time. -/
theorem sameContents_time_iff {calls : List (Str × Str)} {key : Str} {synthesized : Bool}
    (hdata : ¬(baseName key = "data_sent".toList ∨ baseName key = "data_received".toList))
    (htime : "http_req".toList <+: summaryName synthesized key ∨
      "duration".toList <:+: summaryName synthesized key) :
    SameContents calls .trend key synthesized ↔
      (calls.lookup (baseName key) = none → NamesTime (baseName key)) ∧
        ∀ value, calls.lookup (baseName key) = some value →
        value = "time".toList ∧ StreamsTime (baseName key) := by
  have hne : "default".toList ≠ "time".toList := by decide
  have hsummary : summaryContains .trend (summaryName synthesized key) = "time".toList :=
    (summaryContains_cases .trend (summaryName synthesized key)).elim (fun h => h.2.2)
      fun h => absurd ⟨rfl, htime⟩ h.1
  rw [SameContents, hsummary]
  cases hlookup : calls.lookup (baseName key) with
  | none =>
      rcases contains_of_not_registered hlookup hdata with ⟨hname, hcontains⟩ | ⟨hname, hcontains⟩
      · have hstream : classifyContains .trend (baseName key) = "time".toList :=
          (classifyContains_cases .trend hdata).elim (fun h => h.2.2)
            fun h => absurd ⟨rfl, streamsTime_of_namesTime hname⟩ h.1
        rw [hcontains, hstream]
        simpa using hname
      · rw [hcontains]
        exact iff_of_false (fun h => hne h.2.symm) fun h => hname (h.1 rfl)
  | some value =>
      rw [contains_of_registered hlookup]
      simp only [reduceCtorEq, false_imp_iff, true_and, Option.some.injEq, forall_eq']
      rcases classifyContains_cases .trend hdata with ⟨-, htimes, hstream⟩ | ⟨htimes, hstream⟩
      · rw [hstream, and_self_iff, and_iff_left htimes]
        exact eq_comm
      · rw [hstream]
        exact iff_of_false (fun h => hne (h.1.trans h.2.symm)) fun h => htimes ⟨rfl, h.2⟩

/-- A name that it does not take for a time, or another kind. -/
theorem sameContents_default_iff {calls : List (Str × Str)} {kind : EventStream.MetricKind}
    {key : Str}
    {synthesized : Bool}
      (hdata : ¬(baseName key = "data_sent".toList ∨ baseName key = "data_received".toList))
    (htime : ¬(kind = .trend ∧ ("http_req".toList <+: summaryName synthesized key ∨
      "duration".toList <:+: summaryName synthesized key))) :
    SameContents calls kind key synthesized ↔
      (kind = .trend → ¬StreamsTime (baseName key)) ∧
        (calls.lookup (baseName key) = none → ¬NamesTime (baseName key)) ∧
        ∀ value, calls.lookup (baseName key) = some value → value = "default".toList := by
  have hne : "default".toList ≠ "time".toList := by decide
  have hsummary : summaryContains kind (summaryName synthesized key) = "default".toList :=
    (summaryContains_cases kind (summaryName synthesized key)).elim
      (fun h => absurd ⟨h.1, h.2.1⟩ htime)
      fun h => h.2
  rw [SameContents, hsummary]
  have hstream : classifyContains kind (baseName key) = "default".toList ↔
      (kind = .trend → ¬StreamsTime (baseName key)) := by
    rcases classifyContains_cases kind hdata with ⟨htrend, htimes, hstream⟩ | ⟨htimes, hstream⟩
    · rw [hstream]
      exact iff_of_false (fun h => hne h.symm) fun h => h htrend htimes
    · exact iff_of_true hstream fun htrend hs => htimes ⟨htrend, hs⟩
  have hcontains : "default".toList = (ofCalls calls).contains key ↔
      (calls.lookup (baseName key) = none → ¬NamesTime (baseName key)) ∧
        ∀ value, calls.lookup (baseName key) = some value → value = "default".toList := by
    cases hlookup : calls.lookup (baseName key) with
    | none =>
        rcases contains_of_not_registered hlookup hdata with ⟨hname, hcontains⟩ | ⟨hname, hcontains⟩
        · rw [hcontains]
          exact iff_of_false hne fun h => h.1 rfl hname
        · rw [hcontains]
          simpa using hname
    | some value =>
        rw [contains_of_registered hlookup]
        simp [eq_comm]
  rw [← hstream, ← hcontains]
  constructor
  · rintro ⟨hs, hc⟩
    exact ⟨hs.trans hc.symm, hc⟩
  · rintro ⟨hs, hc⟩
    exact ⟨hs.trans hc, hc⟩

/-- A name that the summary does not take for a time is one for the event stream by three
prefixes. -/
theorem streamsTime_iff_of_not_summarized {base : Str}
    (h : ¬("http_req".toList <+: base ∨ "duration".toList <:+: base)) :
    StreamsTime base ↔
      "grpc_req".toList <+: base ∨ "ws_connecting".toList <+: base ∨ "ws_ping".toList <+: base := by
  obtain ⟨hhttp, hduration⟩ := not_or.mp h
  rw [StreamsTime, or_iff_right hhttp, or_iff_right hduration, and_iff_right_iff_imp]
  rintro (hgrpc | hconnecting | hping)
  · exact prefix_apart hgrpc (by decide)
  · exact prefix_apart hconnecting (by decide)
  · exact prefix_apart hping (by decide)

/-- The three answers are the same for no byte counter. A trend that the summary takes for a time
must be one by its name or by its first registration; every other metric must not be registered
otherwise, nor be a time by its name. -/
theorem sameContents_iff (calls : List (Str × Str)) (kind : EventStream.MetricKind) (key : Str)
    (synthesized : Bool) :
    SameContents calls kind key synthesized ↔
      baseName key ≠ "data_sent".toList ∧ baseName key ≠ "data_received".toList ∧
        if kind = .trend ∧
            ("http_req".toList <+: baseName key ∨
              "duration".toList <:+: summaryName synthesized key) then
          (calls.lookup (baseName key) = none → NamesTime (baseName key)) ∧
            ∀ value, calls.lookup (baseName key) = some value → value = "time".toList ∧
              ¬"ws_msgs_".toList <+: baseName key ∧
              ("http_req".toList <+: baseName key ∨ "duration".toList <:+: baseName key ∨
                "grpc_req".toList <+: baseName key ∨ "ws_connecting".toList <+: baseName key ∨
                "ws_ping".toList <+: baseName key)
        else
          (kind = .trend → ¬("grpc_req".toList <+: baseName key ∨
            "ws_connecting".toList <+: baseName key ∨
            "ws_ping".toList <+: baseName key)) ∧
          (kind ≠ .trend → calls.lookup (baseName key) = none → ¬NamesTime (baseName key)) ∧
          ∀ value, calls.lookup (baseName key) = some value → value = "default".toList := by
  by_cases hdata : baseName key = "data_sent".toList ∨ baseName key = "data_received".toList
  · exact iff_of_false (not_sameContents_data hdata) fun h => hdata.elim h.1 h.2.1
  obtain ⟨hsent, hreceived⟩ := not_or.mp hdata
  rw [and_iff_right hsent, and_iff_right hreceived]
  have hstart := prefix_summaryName_iff synthesized key
  split
  · rename_i htime
    obtain ⟨rfl, htime⟩ := htime
    rw [← hstart] at htime
    rw [sameContents_time_iff hdata htime]
    rfl
  · rename_i htime
    rw [← hstart] at htime
    rw [sameContents_default_iff hdata htime, ← and_assoc, ← and_assoc]
    refine and_congr_left' ?_
    by_cases htrend : kind = .trend
    · have hbase : ¬("http_req".toList <+: baseName key ∨ "duration".toList <:+: baseName key) := by
        rw [← hstart]
        exact fun h => htime ⟨htrend, h.imp_right (infix_summaryName synthesized)⟩
      have hnames
          (hnot : ¬("grpc_req".toList <+: baseName key ∨ "ws_connecting".toList <+: baseName key ∨
          "ws_ping".toList <+: baseName key)) : ¬NamesTime (baseName key) :=
        fun h => hnot (.inr ((summarizesTime_of_namesTime h).resolve_left hbase))
      simp only [htrend, true_imp_iff, not_true_eq_false, false_imp_iff, and_true, ne_eq,
        streamsTime_iff_of_not_summarized hbase]
      exact and_iff_left_of_imp fun hnot _ => hnames hnot
    · simp [htrend]

theorem not_sameContents_dataSent : ¬∀ calls kind key synthesized,
    SameContents calls kind key synthesized :=
  fun h => not_sameContents_data (.inl rfl) (h [] .counter "data_sent".toList false)

end K6Rs
