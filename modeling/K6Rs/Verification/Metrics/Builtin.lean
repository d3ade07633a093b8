import K6Rs.Library.StepSystem
import K6Rs.Model.BuiltinMetrics
import K6Rs.Verification.Metrics.Reads

/-! # The engine's own metrics agree

Whatever the threads write, and however their writes interleave, each query for some tags finds as
many requests as there are values of each of their times, but for the calls in progress. -/

namespace K6Rs

open FloatOps MetricSelector
open scoped UInt64.CommRing

/-! ## Calls and their writes -/

/-- A call of the engine that records metrics. -/
inductive BuiltinCall (F : Type) where
  | iteration (durationMs : F)
  | droppedIteration
  | droppedIterations (count : UInt64)
  | check (passed : Bool)
  | groupDuration (durationMs : F)
  | httpRequest (timings : Timings F) (failed : Option Bool) (tags : List (Str × Str))
  | dataSent (bytes : UInt64)
  | dataReceived (bytes : UInt64)
  | wsSession (durationMs : F) (tags : List (Str × Str))
  | wsConnecting (durationMs : F) (tags : List (Str × Str))
  | wsMsgSent (tags : List (Str × Str))
  | wsMsgReceived (tags : List (Str × Str))
  | wsPing (durationMs : F) (tags : List (Str × Str))
  | grpcRequest (durationMs : F) (tags : List (Str × Str))

namespace BuiltinCall

variable {F H : Type} [FloatOps F] [Histogram F H]

def apply (reg : MetricsRegistry F H) : BuiltinCall F → MetricsRegistry F H
  | iteration durationMs => BuiltinMetrics.recordIteration reg durationMs
  | droppedIteration => BuiltinMetrics.recordDroppedIteration reg
  | droppedIterations count => BuiltinMetrics.recordDroppedIterations reg count
  | check passed => BuiltinMetrics.recordCheck reg passed
  | groupDuration durationMs => BuiltinMetrics.recordGroupDuration reg durationMs
  | httpRequest timings failed tags =>
      BuiltinMetrics.recordHttpRequestTaggedWithFailure reg timings failed tags
  | dataSent bytes => BuiltinMetrics.recordDataSent reg bytes
  | dataReceived bytes => BuiltinMetrics.recordDataReceived reg bytes
  | wsSession durationMs tags => BuiltinMetrics.recordWsSession reg durationMs tags
  | wsConnecting durationMs tags => BuiltinMetrics.recordWsConnecting reg durationMs tags
  | wsMsgSent tags => BuiltinMetrics.recordWsMsgSent reg tags
  | wsMsgReceived tags => BuiltinMetrics.recordWsMsgReceived reg tags
  | wsPing durationMs tags => BuiltinMetrics.recordWsPing reg durationMs tags
  | grpcRequest durationMs tags => BuiltinMetrics.recordGrpcRequest reg durationMs tags

/-- The trends of a request, with their times. -/
def timingTrends (timings : Timings F) : List (Str × F) :=
  [("http_req_duration".toList, timings.duration), ("http_req_blocked".toList, timings.blocked),
    ("http_req_connecting".toList, timings.connecting),
    ("http_req_tls_handshaking".toList, timings.tlsHandshaking),
    ("http_req_sending".toList, timings.sending), ("http_req_waiting".toList, timings.waiting),
    ("http_req_receiving".toList, timings.receiving)]

/-- The writes of a call, each of which takes a lock of its own. -/
def samples : BuiltinCall F → List (Sample F)
  | iteration durationMs =>
      [⟨"iterations".toList, .none, .counter 1⟩,
        ⟨"iteration_duration".toList, .none, .trend durationMs⟩]
  | droppedIteration => [⟨"dropped_iterations".toList, .none, .counter 1⟩]
  | droppedIterations count =>
      if 0 < count then [⟨"dropped_iterations".toList, .none, .counter count⟩] else []
  | check passed => [⟨"checks".toList, .none, .rate passed⟩]
  | groupDuration durationMs => [⟨"group_duration".toList, .none, .trend durationMs⟩]
  | httpRequest timings failed tags =>
      ⟨"http_reqs".toList, .pairs tags, .counter 1⟩ ::
        (failed.toList.map fun failed => ⟨"http_req_failed".toList, .pairs tags, .rate failed⟩) ++
          (timingTrends timings).map fun t => ⟨t.1, .pairs tags, .trend t.2⟩
  | dataSent bytes => [⟨"data_sent".toList, .none, .counter bytes⟩]
  | dataReceived bytes => [⟨"data_received".toList, .none, .counter bytes⟩]
  | wsSession durationMs tags =>
      [⟨"ws_sessions".toList, .pairs tags, .counter 1⟩,
        ⟨"ws_session_duration".toList, .pairs tags, .trend durationMs⟩]
  | wsConnecting durationMs tags => [⟨"ws_connecting".toList, .pairs tags, .trend durationMs⟩]
  | wsMsgSent tags => [⟨"ws_msgs_sent".toList, .pairs tags, .counter 1⟩]
  | wsMsgReceived tags => [⟨"ws_msgs_received".toList, .pairs tags, .counter 1⟩]
  | wsPing durationMs tags => [⟨"ws_ping".toList, .pairs tags, .trend durationMs⟩]
  | grpcRequest durationMs tags =>
      [⟨"grpc_reqs".toList, .pairs tags, .counter 1⟩,
        ⟨"grpc_req_duration".toList, .pairs tags, .trend durationMs⟩]

theorem writeCanonicalKey_eq (buf name suffix : Str) :
    writeCanonicalKey buf name suffix = canonicalKey name suffix := by
  rw [canonicalKey, writeCanonicalKey]
  cases suffix <;> simp

/-- A call makes its writes one after the other. -/
theorem apply_eq (reg : MetricsRegistry F H) (call : BuiltinCall F) :
    call.apply reg = call.samples.foldl MetricsRegistry.write reg := by
  cases call with
  | droppedIterations count =>
      rw [apply, BuiltinMetrics.recordDroppedIterations, samples]
      split <;> rfl
  | httpRequest timings failed tags =>
      simp only [apply, BuiltinMetrics.recordHttpRequestTaggedWithFailure, writeCanonicalKey_eq]
      cases failed <;> rfl
  | _ => rfl

/-- Calls that follow each other leave the registry with all of their writes. -/
theorem foldl_apply_eq (calls : List (BuiltinCall F)) :
    calls.foldl apply .new = (.record (calls.flatMap samples) : MetricsRegistry F H) := by
  induction calls using List.reverseRecOn with
  | nil => rfl
  | append_singleton calls call ih =>
      rw [List.foldl_append, ih, List.foldl_cons, List.foldl_nil, apply_eq, List.flatMap_append,
        List.flatMap_singleton, MetricsRegistry.record, MetricsRegistry.record, List.foldl_append]

end BuiltinCall

/-! ## Counts by name and tags -/

theorem sumOver_cons {α M : Type} [Zero M] [Add M] (p : MetricSelector → Bool) (amount : α → M)
    (w : MetricSelector × α) (ws : List (MetricSelector × α)) :
    sumOver p amount (w :: ws) = (if p w.1 then amount w.2 else 0) + sumOver p amount ws := rfl

/-- A counter that adds one at a time has the number of its writes. -/
theorem sumOver_counter {ws : List (MetricSelector × UInt64)} {name : Str}
    (hone : ∀ w ∈ ws, w.1.name = name → w.2 = 1) (tags : TagMap) :
    sumOver (selects ⟨name, tags⟩) (fun v => v) ws =
      UInt64.ofNat (sumOver (selects ⟨name, tags⟩) (fun _ => 1) ws) := by
  induction ws with
  | nil => rfl
  | cons w ws ih =>
      rw [sumOver_cons, sumOver_cons, ih fun w hw => hone w (List.mem_cons_of_mem _ hw),
        UInt64.ofNat_add]
      by_cases h : selects ⟨name, tags⟩ w.1 = true
      · have hname : w.1.name = name := beq_iff_eq.mp (Bool.and_eq_true_iff.mp h).1
        rw [if_pos h, if_pos h, hone w List.mem_cons_self hname]
        rfl
      · rw [if_neg h, if_neg h]
        rfl

/-- The kind and the name of the metric that a sample is written to. -/
def Sample.metric {F : Type} (s : Sample F) : MetricKind × Str := (s.kind, s.name)

/-- The writes of a kind of metric. -/
def IsPart {F α : Type} (part : Sample F → Option (MetricSelector × α)) (kind : MetricKind) :
    Prop :=
  ∀ s, (part s).map Prod.fst = if s.kind = kind then some s.selector else none

theorem counterWrite_isPart {F : Type} : IsPart (F := F) Sample.counterWrite .counter := by
  intro s
  rw [Sample.counterWrite, Sample.kind]
  cases s.observation <;> rfl

theorem rateWrite_isPart {F : Type} : IsPart (F := F) Sample.rateWrite .rate := by
  intro s
  rw [Sample.rateWrite, Sample.kind]
  cases s.observation <;> rfl

theorem trendWrite_isPart {F : Type} : IsPart (F := F) Sample.trendWrite .trend := by
  intro s
  rw [Sample.trendWrite, Sample.kind]
  cases s.observation <;> rfl

/-- The samples of a metric that a query for some tags finds. -/
def found {F : Type} (metric : MetricKind × Str) (tags : TagMap) (samples : List (Sample F)) : ℕ :=
  samples.countP fun s => s.metric = metric ∧ tagsMatch tags s.tagMap

/-- The writes that a query selects are counted by their samples. -/
theorem sumOver_part {F α : Type} {part : Sample F → Option (MetricSelector × α)}
    {kind : MetricKind}
    (hpart : IsPart part kind) (name : Str) (tags : TagMap) (samples : List (Sample F)) :
    sumOver (selects ⟨name, tags⟩) (fun _ => 1) (samples.filterMap part) =
      found (kind, name) tags samples := by
  induction samples with
  | nil => rfl
  | cons s samples ih =>
      have hs := hpart s
      rw [found, List.countP_cons, ← found, ← ih]
      split at hs
      case isTrue hkind =>
          obtain ⟨w, hw, hsel⟩ := Option.map_eq_some_iff.mp hs
          rw [List.filterMap_cons_some hw, sumOver_cons, Nat.add_comm, hsel]
          congr 1
          simp [selects, Sample.metric, Sample.selector, hkind]
      case isFalse hkind =>
          rw [List.filterMap_cons_none (Option.map_eq_none_iff.mp hs)]
          simp [Sample.metric, hkind]

theorem found_append {F : Type} (metric : MetricKind × Str) (tags : TagMap)
    (l l' : List (Sample F)) :
    found metric tags (l ++ l') = found metric tags l + found metric tags l' :=
  List.countP_append

/-- Samples of other names are not found. -/
theorem found_others {F : Type} {kind : MetricKind} {name : Str} (tags : TagMap)
    {samples : List (Sample F)} (h : ∀ s ∈ samples, s.name ≠ name) :
    found (kind, name) tags samples = 0 := by
  refine List.countP_eq_zero.mpr fun s hs hfound => ?_
  have hmetric := (of_decide_eq_true hfound).1
  exact h s hs (congrArg Prod.snd hmetric)

/-- Among samples under one tag set, the query finds all of a metric or none. -/
theorem found_of_tags {F : Type} (metric : MetricKind × Str) (tags : TagMap) {g : TagMap}
    {samples : List (Sample F)} (hg : ∀ s ∈ samples, s.tagMap = g) :
    found metric tags samples =
      if tagsMatch tags g then (samples.map Sample.metric).count metric else 0 := by
  induction samples with
  | nil => simp [found]
  | cons s samples ih =>
      have hs := hg s List.mem_cons_self
      rw [found, List.countP_cons, ← found, ih fun s hs => hg s (List.mem_cons_of_mem _ hs),
        List.map_cons, List.count_cons, hs]
      cases tagsMatch tags g <;> simp

/-! ## Counters and the trends that follow them -/

namespace BuiltinCall

variable {F : Type}

def timingNames : List Str :=
  ["http_req_duration".toList, "http_req_blocked".toList, "http_req_connecting".toList,
    "http_req_tls_handshaking".toList, "http_req_sending".toList, "http_req_waiting".toList,
    "http_req_receiving".toList]

/-- A counter of requests, with a trend that has a value for each of them. -/
def pairedMetrics : List (Str × Str) :=
  timingNames.map (fun name => ("http_reqs".toList, name)) ++
    [("iterations".toList, "iteration_duration".toList),
      ("ws_sessions".toList, "ws_session_duration".toList),
      ("grpc_reqs".toList, "grpc_req_duration".toList)]

/-- The counters that add more than one at a time. -/
def amounts : List Str := ["dropped_iterations".toList, "data_sent".toList, "data_received".toList]

/-- The tags of a call. -/
def tags : BuiltinCall F → TagMap
  | httpRequest _ _ tags => lastWins tags
  | wsSession _ tags => lastWins tags
  | wsConnecting _ tags => lastWins tags
  | wsMsgSent tags => lastWins tags
  | wsMsgReceived tags => lastWins tags
  | wsPing _ tags => lastWins tags
  | grpcRequest _ tags => lastWins tags
  | _ => ∅

theorem mem_samples_httpRequest {timings : Timings F} {failed : Option Bool}
    {tags : List (Str × Str)}
    {s : Sample F} (hs : s ∈ (httpRequest timings failed tags).samples) :
    s = ⟨"http_reqs".toList, .pairs tags, .counter 1⟩ ∨
      (∃ b, s = ⟨"http_req_failed".toList, .pairs tags, .rate b⟩) ∨
      ∃ t : Str × F, s = ⟨t.1, .pairs tags, .trend t.2⟩ := by
  simp only [samples, List.cons_append, List.mem_cons, List.mem_append, List.mem_map] at hs
  rcases hs with hs | ⟨b, -, hs⟩ | ⟨t, -, hs⟩
  · exact .inl hs
  · exact .inr (.inl ⟨b, hs.symm⟩)
  · exact .inr (.inr ⟨t, hs.symm⟩)

/-- A call writes all of its samples under one tag set. -/
theorem tagMap_samples (call : BuiltinCall F) : ∀ s ∈ call.samples, s.tagMap = call.tags := by
  intro s hs
  cases call with
  | droppedIterations count =>
      rw [samples] at hs
      split at hs
      · rw [List.mem_singleton.mp hs]
        rfl
      · cases hs
  | httpRequest timings failed tags =>
      rcases mem_samples_httpRequest hs with rfl | ⟨b, rfl⟩ | ⟨t, rfl⟩ <;> rfl
  | _ =>
      simp only [samples, List.mem_cons, List.not_mem_nil, or_false] at hs
      rcases hs with rfl | rfl <;> rfl

/-- A counter of requests adds one at a time. -/
theorem counter_eq_one (call : BuiltinCall F) {name : Str} (hname : name ∉ amounts) :
    ∀ w ∈ call.samples.filterMap Sample.counterWrite, w.1.name = name → w.2 = 1 := by
  rintro w hw rfl
  obtain ⟨s, hs, hwrite⟩ := List.mem_filterMap.mp hw
  cases call with
  | droppedIterations count =>
      rw [samples] at hs
      split at hs
      · rw [List.mem_singleton.mp hs] at hwrite
        cases hwrite
        exact absurd List.mem_cons_self hname
      · cases hs
  | dataSent bytes =>
      rw [List.mem_singleton.mp hs] at hwrite
      cases hwrite
      exact absurd (List.mem_cons_of_mem _ List.mem_cons_self) hname
  | dataReceived bytes =>
      rw [List.mem_singleton.mp hs] at hwrite
      cases hwrite
      exact absurd (List.mem_cons_of_mem _ (List.mem_cons_of_mem _ List.mem_cons_self)) hname
  | httpRequest timings failed tags =>
      rcases mem_samples_httpRequest hs with rfl | ⟨b, rfl⟩ | ⟨t, rfl⟩ <;> cases hwrite
      rfl
  | _ =>
      simp only [samples, List.mem_cons, List.not_mem_nil, or_false] at hs
      rcases hs with rfl | rfl <;> cases hwrite <;> rfl

/-- After the first writes of a call, each counter agrees with the trends that follow it but for the
rest of the call, and what is judged comes before what is timed. -/
def InStep (metrics : List (MetricKind × Str)) (k : ℕ) : Prop :=
  let made (kind : MetricKind) (name : Str) := (metrics.take k).count (kind, name)
  let unfinished := if k < metrics.length then 1 else 0
  (∀ p ∈ pairedMetrics, made .trend p.2 ≤ made .counter p.1 ∧
    made .counter p.1 ≤ made .trend p.2 + unfinished) ∧
      made .rate "http_req_failed".toList ≤ made .trend "http_req_duration".toList + unfinished

instance (metrics : List (MetricKind × Str)) (k : ℕ) : Decidable (InStep metrics k) :=
  inferInstanceAs (Decidable (_ ∧ _))

def httpMetrics (failed : Option Bool) : List (MetricKind × Str) :=
  (.counter, "http_reqs".toList) ::
    (failed.toList.map fun _ => (.rate, "http_req_failed".toList)) ++
    timingNames.map fun name => (.trend, name)

/-- A call is in step after each of its writes. -/
theorem inStep_samples (call : BuiltinCall F) :
    ∀ k < call.samples.length + 1, InStep (call.samples.map Sample.metric) k := by
  cases call with
  | iteration durationMs =>
      exact (by decide +kernel : ∀ k < 3, InStep [(.counter, "iterations".toList),
        (.trend, "iteration_duration".toList)] k)
  | droppedIteration =>
      exact (by decide +kernel : ∀ k < 2, InStep [(.counter, "dropped_iterations".toList)] k)
  | droppedIterations count =>
      rw [samples]
      split
      · exact (by decide +kernel : ∀ k < 2, InStep [(.counter, "dropped_iterations".toList)] k)
      · exact (by decide +kernel : ∀ k < 1, InStep [] k)
  | check passed => exact (by decide +kernel : ∀ k < 2, InStep [(.rate, "checks".toList)] k)
  | groupDuration durationMs =>
      exact (by decide +kernel : ∀ k < 2, InStep [(.trend, "group_duration".toList)] k)
  | httpRequest timings failed tags =>
      cases failed with
      | none => exact (by decide +kernel : ∀ k < 9, InStep (httpMetrics none) k)
      | some failed => exact (by decide +kernel : ∀ k < 10, InStep (httpMetrics (some true)) k)
  | dataSent bytes => exact (by decide +kernel : ∀ k < 2, InStep [(.counter, "data_sent".toList)] k)
  | dataReceived bytes =>
      exact (by decide +kernel : ∀ k < 2, InStep [(.counter, "data_received".toList)] k)
  | wsSession durationMs tags =>
      exact (by decide +kernel : ∀ k < 3, InStep [(.counter, "ws_sessions".toList),
        (.trend, "ws_session_duration".toList)] k)
  | wsConnecting durationMs tags =>
      exact (by decide +kernel : ∀ k < 2, InStep [(.trend, "ws_connecting".toList)] k)
  | wsMsgSent tags =>
      exact (by decide +kernel : ∀ k < 2, InStep [(.counter, "ws_msgs_sent".toList)] k)
  | wsMsgReceived tags =>
      exact (by decide +kernel : ∀ k < 2, InStep [(.counter, "ws_msgs_received".toList)] k)
  | wsPing durationMs tags =>
      exact (by decide +kernel : ∀ k < 2, InStep [(.trend, "ws_ping".toList)] k)
  | grpcRequest durationMs tags =>
      exact (by decide +kernel : ∀ k < 3, InStep [(.counter, "grpc_reqs".toList),
        (.trend, "grpc_req_duration".toList)] k)

/-- The samples that calls have written; each call comes with the number of its writes. -/
def writtenSamples (calls : List (BuiltinCall F × ℕ)) : List (Sample F) :=
  calls.flatMap fun c => c.1.samples.take c.2

/-- The calls with writes to come. -/
def unfinished (calls : List (BuiltinCall F × ℕ)) : ℕ :=
  calls.countP fun c => c.2 < c.1.samples.length

theorem found_take (call : BuiltinCall F) (k : ℕ) (metric : MetricKind × Str) (tags : TagMap) :
    found metric tags (call.samples.take k) =
      if tagsMatch tags call.tags then ((call.samples.map Sample.metric).take k).count metric
      else 0 := by
  rw [← List.map_take]
  exact found_of_tags metric tags fun s hs => call.tagMap_samples s (List.mem_of_mem_take hs)

theorem found_writtenSamples_cons (c : BuiltinCall F × ℕ) (calls : List (BuiltinCall F × ℕ))
    (metric : MetricKind × Str) (tags : TagMap) :
    found metric tags (writtenSamples (c :: calls)) =
      found metric tags (c.1.samples.take c.2) + found metric tags (writtenSamples calls) := by
  rw [writtenSamples, List.flatMap_cons, found_append, ← writtenSamples]

theorem unfinished_cons (c : BuiltinCall F × ℕ) (calls : List (BuiltinCall F × ℕ)) :
    unfinished (c :: calls) = unfinished calls + if c.2 < c.1.samples.length then 1 else 0 := by
  rw [unfinished, List.countP_cons, ← unfinished]
  simp

/-- Under a query for some tags, a counter agrees with its trends but for the calls in progress. -/
theorem found_paired {calls : List (BuiltinCall F × ℕ)} (h : ∀ c ∈ calls, c.2 ≤ c.1.samples.length)
    {p : Str × Str} (hp : p ∈ pairedMetrics) (tags : TagMap) :
    found (.trend, p.2) tags (writtenSamples calls) ≤
    found (.counter, p.1) tags (writtenSamples calls) ∧
      found (.counter, p.1) tags (writtenSamples calls) ≤
        found (.trend, p.2) tags (writtenSamples calls) + unfinished calls := by
  induction calls with
  | nil => exact ⟨Nat.le_refl _, Nat.le_refl _⟩
  | cons c calls ih =>
      obtain ⟨hle, hge⟩ := ih fun c hc => h c (List.mem_cons_of_mem _ hc)
      have hstep := (inStep_samples c.1 c.2 (Nat.lt_succ_of_le (h c List.mem_cons_self))).1 p hp
      simp only [List.length_map] at hstep
      rw [found_writtenSamples_cons, found_writtenSamples_cons, found_take, found_take,
        unfinished_cons]
      split
      · omega
      · omega

/-- What is judged is timed, but for the calls in progress. -/
theorem found_judged {calls : List (BuiltinCall F × ℕ)} (h : ∀ c ∈ calls, c.2 ≤ c.1.samples.length)
    (tags : TagMap) :
    found (.rate, "http_req_failed".toList) tags (writtenSamples calls) ≤
      found (.trend, "http_req_duration".toList) tags (writtenSamples calls) +
      unfinished calls := by
  induction calls with
  | nil => exact Nat.le_refl _
  | cons c calls ih =>
      have hle := ih fun c hc => h c (List.mem_cons_of_mem _ hc)
      have hstep := (inStep_samples c.1 c.2 (Nat.lt_succ_of_le (h c List.mem_cons_self))).2
      simp only [List.length_map] at hstep
      rw [found_writtenSamples_cons, found_writtenSamples_cons, found_take, found_take,
        unfinished_cons]
      split
      · omega
      · omega

end BuiltinCall

/-! ## Runs -/

/-- The registry while the engine's calls are made, by any number of threads. -/
structure BuiltinRun (F H : Type) [FloatOps F] where
  registry : MetricsRegistry F H
  /-- The calls with the number of the writes they have made. -/
  calls : List (BuiltinCall F × ℕ)
  /-- The samples of the script. -/
  custom : List (Sample F)

namespace BuiltinRun

open BuiltinCall

variable {F H : Type} [FloatOps F] [FloatBits F] [Histogram F H]

def new : BuiltinRun F H := ⟨.new, [], []⟩

inductive Event (F : Type) where
  | begin (call : BuiltinCall F)
  /-- The next write of a call. -/
  | write (i : ℕ)
  /-- A write that is none of a call: a gauge, or a metric of the script. -/
  | other (w : Write F)

def step (s : BuiltinRun F H) : Event F → Option (BuiltinRun F H)
  | .begin call => some { s with calls := s.calls ++ [(call, 0)] }
  | .write i =>
      match s.calls[i]? with
      | none => none
      | some (call, k) =>
          match call.samples[k]? with
          | none => none
          | some x =>
              some { s with registry := s.registry.write x, calls := s.calls.set i (call, k + 1) }
  | .other w =>
      some { s with registry := s.registry.apply w, custom := s.custom ++ w.sample?.toList }

end BuiltinRun

def builtinSystem (F H : Type) [FloatOps F] [FloatBits F] [Histogram F H] :
    StepSystem (BuiltinRun F H) (BuiltinRun.Event F) where
  init s := s = .new
  step := BuiltinRun.step

theorem flatMap_set_perm {α β : Type} {f : α → List β} {l : List α} {i : ℕ} {a a' : α} {b : β}
    (hi : l[i]? = some a) (hf : f a' = f a ++ [b]) :
    ((l.set i a').flatMap f).Perm (l.flatMap f ++ [b]) := by
  induction l generalizing i with
  | nil => cases hi
  | cons c l ih =>
      cases i with
      | zero =>
          cases hi
          rw [List.set_cons_zero, List.flatMap_cons, List.flatMap_cons, hf, List.append_assoc,
            List.append_assoc]
          exact List.Perm.append_left _ List.perm_append_comm
      | succ i =>
          rw [List.set_cons_succ, List.flatMap_cons, List.flatMap_cons, List.append_assoc]
          exact List.Perm.append_left _ (ih hi)

namespace BuiltinRun

open BuiltinCall

variable {F H : Type} [FloatOps F] [FloatBits F] [Histogram F H]

/-- The registry holds what the calls have written, in some order and among other writes. -/
structure Inv (s : BuiltinRun F H) : Prop where
  holds : ∃ ws, s.registry = .recordAll ws ∧
    (ws.filterMap Write.sample?).Perm (writtenSamples s.calls ++ s.custom)
  progress : ∀ c ∈ s.calls, c.2 ≤ c.1.samples.length

theorem Inv.step {s s' : BuiltinRun F H} {e : Event F} (h : s.Inv) (hs : s.step e = some s') :
    s'.Inv := by
  obtain ⟨ws, hregistry, hperm⟩ := h.holds
  cases e with
  | begin call =>
      cases hs
      refine ⟨⟨ws, hregistry, ?_⟩, fun c hc => ?_⟩
      · rw [writtenSamples, List.flatMap_append, ← writtenSamples]
        simpa using hperm
      · rcases List.mem_append.mp hc with hc | hc
        · exact h.progress c hc
        · rw [List.mem_singleton.mp hc]
          exact Nat.zero_le _
  | write i =>
      rw [BuiltinRun.step] at hs
      split at hs
      · cases hs
      · rename_i call k hi
        split at hs
        · cases hs
        · rename_i x hx
          cases hs
          have hk : k < call.samples.length := (List.getElem?_eq_some_iff.mp hx).1
          have htake : call.samples.take (k + 1) = call.samples.take k ++ [x] := by
            rw [List.take_add_one, hx, Option.toList_some]
          refine ⟨⟨ws ++ [.sample x], ?_, ?_⟩, fun c hc => ?_⟩
          · rw [recordAll_concat, hregistry]
            rfl
          · have hcalls : (writtenSamples (s.calls.set i (call, k + 1))).Perm
                (writtenSamples s.calls ++ [x]) := flatMap_set_perm hi htake
            rw [List.filterMap_append]
            refine (hperm.append_right [x]).trans (.trans ?_ (hcalls.append_right s.custom).symm)
            rw [List.append_assoc, List.append_assoc]
            exact List.Perm.append_left _ List.perm_append_comm
          · rcases List.mem_or_eq_of_mem_set hc with hc | rfl
            · exact h.progress c hc
            · exact hk
  | other w =>
      cases hs
      refine ⟨⟨ws ++ [w], ?_, ?_⟩, h.progress⟩
      · rw [recordAll_concat, hregistry]
      · have hw : [w].filterMap Write.sample? = w.sample?.toList := by
          cases w <;> rfl
        rw [List.filterMap_append, hw, ← List.append_assoc]
        exact hperm.append_right _

theorem inv_of_run {es : List (Event F)} {s : BuiltinRun F H}
    (h : (builtinSystem F H).AnyRun es s) : s.Inv :=
  h.invariant (fun _ hs => hs ▸ ⟨⟨[], rfl, .nil⟩, by simp [new]⟩) fun _ _ _ hinv _ hs =>
    hinv.step hs

end BuiltinRun

/-! ## The engine's metrics -/

open BuiltinCall

/-- The names that are compared. -/
def builtinNames : List Str :=
  "http_req_failed".toList :: pairedMetrics.flatMap fun p => [p.1, p.2]

/-- For some tags, the engine's metrics agree but for the calls in progress: each counter of
requests with the trends that follow it, and what is judged with what is timed. -/
structure BuiltinAgree {F H : Type} [FloatOps F] [Histogram F H] (reg : MetricsRegistry F H)
    (tags : TagMap) (inProgress : ℕ) : Prop where
  paired : ∀ p ∈ pairedMetrics, ∀ q r, parse q = .ok ⟨p.1, tags⟩ → parse r = .ok ⟨p.2, tags⟩ →
    ∃ count, reg.counterGet q = UInt64.ofNat count ∧
      (reg.trendStats r).elim 0 TrendStats.count ≤ count ∧
        count ≤ (reg.trendStats r).elim 0 TrendStats.count + inProgress
  judged : ∀ q r, parse q = .ok ⟨"http_req_failed".toList, tags⟩ →
    parse r = .ok ⟨"http_req_duration".toList, tags⟩ →
      (reg.rateGet q).2.2 ≤ (reg.trendStats r).elim 0 TrendStats.count + inProgress

section Agree

variable {F H : Type} [FloatOps F] [FloatBits F] [Histogram F H] {ws : List (Write F)}
    {q name : Str}
  {tags : TagMap}

theorem trendCount_found (hreadable : ∀ s ∈ ws.filterMap Write.sample?, Readable s.selector)
    (hq : parse q = .ok ⟨name, tags⟩) :
    ((.recordAll ws : MetricsRegistry F H).trendStats q).elim 0 TrendStats.count =
      found (.trend, name) tags (ws.filterMap Write.sample?) := by
  obtain ⟨-, -, htrends⟩ := stores_recordAll (H := H) ws
  rw [MetricsRegistry.trendStats, htrends, ← MetricsRegistry.trendStats,
    trendCount_record hreadable hq, sumOver_part trendWrite_isPart]

theorem rateTotal_found (hreadable : ∀ s ∈ ws.filterMap Write.sample?, Readable s.selector)
    (hq : parse q = .ok ⟨name, tags⟩) :
    ((.recordAll ws : MetricsRegistry F H).rateGet q).2.2 =
      found (.rate, name) tags (ws.filterMap Write.sample?) := by
  obtain ⟨-, hrates, -⟩ := stores_recordAll (H := H) ws
  rw [MetricsRegistry.rateGet, hrates, ← MetricsRegistry.rateGet, rateGet_record hreadable hq,
    ← sumOver_part rateWrite_isPart]
  rfl

/-- A counter that adds one at a time counts its samples. -/
theorem counterGet_found (hreadable : ∀ s ∈ ws.filterMap Write.sample?, Readable s.selector)
    (hone : ∀ w ∈ (ws.filterMap Write.sample?).filterMap Sample.counterWrite,
      w.1.name = name → w.2 = 1)
    (hq : parse q = .ok ⟨name, tags⟩) :
    (.recordAll ws : MetricsRegistry F H).counterGet q =
      UInt64.ofNat (found (.counter, name) tags (ws.filterMap Write.sample?)) := by
  obtain ⟨hcounters, -, -⟩ := stores_recordAll (H := H) ws
  rw [MetricsRegistry.counterGet, hcounters, ← MetricsRegistry.counterGet,
    counterGet_record hreadable hq, sumOver_counter hone, sumOver_part counterWrite_isPart]

/-- In every state that a run reaches, however the writes of its calls interleave, the engine's
metrics agree under all tags but for the calls in progress. -/
theorem builtin_agree {es : List (BuiltinRun.Event F)} {s : BuiltinRun F H}
    (hrun : (builtinSystem F H).AnyRun es s) (hcustom : ∀ x ∈ s.custom, x.name ∉ builtinNames)
    (hreadable : ∀ x ∈ writtenSamples s.calls ++ s.custom, Readable x.selector) (tags : TagMap) :
    BuiltinAgree s.registry tags (unfinished s.calls) := by
  have hinv := BuiltinRun.inv_of_run hrun
  obtain ⟨ws, hregistry, hperm⟩ := hinv.holds
  rw [hregistry]
  have hread : ∀ x ∈ ws.filterMap Write.sample?, Readable x.selector := fun x hx =>
    hreadable x (hperm.mem_iff.mp hx)
  have hother {name : Str} (hname : name ∈ builtinNames) : ∀ x ∈ s.custom, x.name ≠ name :=
    fun x hx hsame => hcustom x hx (hsame ▸ hname)
  have hfound (kind : MetricKind) {name : Str} (hname : name ∈ builtinNames) :
      found (kind, name) tags (ws.filterMap Write.sample?) =
        found (kind, name) tags (writtenSamples s.calls) := by
    rw [found, hperm.countP_eq, ← found, found_append, found_others tags (hother hname),
      Nat.add_zero]
  have hpair {p : Str × Str} (hp : p ∈ pairedMetrics) :
      p.1 ∈ builtinNames ∧ p.2 ∈ builtinNames := by
    refine ⟨List.mem_cons_of_mem _ (List.mem_flatMap.mpr ⟨p, hp, List.mem_cons_self⟩),
      List.mem_cons_of_mem _ (List.mem_flatMap.mpr ⟨p, hp, ?_⟩)⟩
    exact List.mem_cons_of_mem _ List.mem_cons_self
  refine ⟨fun p hp q r hq hr => ?_, fun q r hq hr => ?_⟩
  · obtain ⟨hcounter, htrend⟩ := hpair hp
    have hamount : p.1 ∉ amounts := by
      have hall : (pairedMetrics.all fun p => !amounts.contains p.1) = true := by decide
      simpa using List.all_eq_true.mp hall p hp
    have hone : ∀ w ∈ (ws.filterMap Write.sample?).filterMap Sample.counterWrite,
        w.1.name = p.1 → w.2 = 1 := by
      intro w hw hname
      obtain ⟨x, hx, hsome⟩ := List.mem_filterMap.mp hw
      rcases List.mem_append.mp (hperm.mem_iff.mp hx) with hx | hx
      · obtain ⟨c, -, hc⟩ := List.mem_flatMap.mp hx
        have hmem := List.mem_filterMap.mpr ⟨x, List.mem_of_mem_take hc, hsome⟩
        exact c.1.counter_eq_one hamount w hmem hname
      · rw [← (counterWrite_writesOf x w hsome).1] at hname
        exact absurd hname (hother hcounter x hx)
    refine ⟨_, counterGet_found hread hone hq, ?_⟩
    rw [trendCount_found hread hr, hfound .counter hcounter, hfound .trend htrend]
    exact found_paired hinv.progress hp tags
  · have hp : ("http_reqs".toList, "http_req_duration".toList) ∈ pairedMetrics := List.mem_cons_self
    rw [rateTotal_found hread hq, trendCount_found hread hr, hfound .rate List.mem_cons_self,
      hfound .trend (hpair hp).2]
    exact found_judged hinv.progress tags

end Agree

/-! ### An iteration that a session crosses -/

def crossedEvents : List (BuiltinRun.Event ℚ) :=
  [.begin (.iteration 3), .begin (.wsSession 2 [("k".toList, "v".toList)]), .write 1, .write 0,
    .other (.gauge "vus".toList 1), .other (.sample ⟨"hits".toList, .none, .counter 5⟩), .write 0]

theorem builtin_agree_crossed : ∃ s : BuiltinRun ℚ (List ℕ),
    (builtinSystem ℚ (List ℕ)).AnyRun crossedEvents s ∧ unfinished s.calls = 1 ∧
      ∀ tags, BuiltinAgree s.registry tags (unfinished s.calls) := by
  have hexec : ∃ s, (builtinSystem ℚ (List ℕ)).AnyRun crossedEvents s ∧
      unfinished s.calls = 1 ∧ (s.custom.all fun x => !builtinNames.contains x.name) ∧
        (writtenSamples s.calls ++ s.custom).all fun x =>
          parse (canonical x.selector) = .ok x.selector :=
    StepSystem.exists_run_of_exec _ rfl (by decide +kernel)
  obtain ⟨s, hrun, hprogress, hcustom, hread⟩ := hexec
  refine ⟨s, hrun, hprogress, builtin_agree hrun (fun x hx => ?_) fun x hx => ?_⟩
  · simpa using List.all_eq_true.mp hcustom x hx
  · have hcell := List.all_eq_true.mp hread x hx
    rw [decide_eq_true_iff] at hcell
    exact hcell

end K6Rs
