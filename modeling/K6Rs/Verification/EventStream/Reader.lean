import K6Rs.Model.JsonStream
import K6Rs.Verification.EventStream.Definitions

/-! # The file of a finished stream is read back

Each line is one envelope, which the typed reader takes apart as it was put together. The
definitions are those of the stream, and so of the recorded metrics. -/

namespace K6Rs

namespace EventStream.MetricKind

/-- The tag that the reader has for a kind. -/
def tag : MetricKind → CanonicalMetricKindTag
  | .counter => .counter
  | .gauge => .gauge
  | .rate => .rate
  | .trend => .trend

theorem parse_asStr (kind : MetricKind) :
    CanonicalMetricKindTag.parse kind.asStr = some kind.tag := by
  cases kind <;> decide

end EventStream.MetricKind

/-! ## Where the definitions come from -/

namespace EventStream

variable {n : ℕ} {F : Type} [DecidableEq F]

/-- A recorded event made the definition. -/
def MadeBy (s : EventStream n F) (d : MetricDef) : Prop :=
  ∃ x ∈ s.postings.log, d = ⟨x.content.metricName, x.content.metricKind,
    classifyContains x.content.metricKind x.content.metricName⟩

/-- Every definition, written or queued, was made by a recorded event. -/
structure Sourced (s : EventStream n F) : Prop where
  output : ∀ d, .metric d ∈ s.output → s.MadeBy d
  queue : ∀ d ∈ s.defState.queue, s.MadeBy d

theorem Sourced.emit {s s' : EventStream n F} (h : s.Sourced) {xs : List (StreamSample n F)}
    (houtput : s'.output = s.output ++ xs.map .point) (hqueue : s'.defState = s.defState)
    (hlog : s'.postings = s.postings) : s'.Sourced := by
  refine ⟨fun d hd => ?_, fun d hd => ?_⟩
  · rw [MadeBy, hlog]
    rw [houtput] at hd
    exact h.output d (by simpa using hd)
  · rw [MadeBy, hlog]
    exact h.queue d (hqueue ▸ hd)

theorem Sourced.step {s s' : EventStream n F} {e : Event n F} (h : s.Sourced)
    (hs : Steps s e s') : s'.Sourced := by
  cases hs with
  | record p ev hp hsender =>
      have hmore : ∀ d, s.MadeBy d → MadeBy { s.setProducer p .entered with
          postings := s.postings.post p ev hp } d := by
        rintro d ⟨x, hx, hd⟩
        exact ⟨x, List.mem_append_left _ hx, hd⟩
      exact ⟨fun d hd => hmore d (h.output d hd), fun d hd => hmore d (h.queue d hd)⟩
  | define p x hx hpc =>
      refine ⟨h.output, fun d hd => ?_⟩
      simp only [DefState.define] at hd
      split at hd
      · exact h.queue d hd
      · rcases List.mem_append.mp hd with hd | hd
        · exact h.queue d hd
        · exact ⟨x, s.postings.mem_log_of_pending hx, List.mem_singleton.mp hd⟩
  | flushDefs batch closed hpc =>
      refine ⟨fun d hd => ?_, by rintro _ ⟨⟩⟩
      rcases List.mem_append.mp hd with hd | hd
      · exact h.output d hd
      · obtain ⟨d', hd', heq⟩ := List.mem_map.mp hd
        cases heq
        exact h.queue d hd'
  | emitPoints batch hpc => exact h.emit rfl rfl rfl
  | emitLast batch hpc => exact h.emit rfl rfl rfl
  | _ => exact ⟨h.output, h.queue⟩

theorem sourced_of_run {capacity : ℕ} {es : List (Event n F)} {s : EventStream n F}
    (h : (eventStreamSystem n F capacity).AnyRun es s) : s.Sourced := by
  refine h.invariant (I := Sourced) ?_ fun s e s' hinv _ hs => hinv.step (steps_of_step hs)
  rintro s rfl
  exact ⟨nofun, nofun⟩

end EventStream

namespace StreamFormat

variable {n : ℕ} {F : Type} {format : StreamFormat F}

/-! ## Lines -/

/-- What is relied on for a line: the parser reads back what the serializer wrote, and the text
of a float has no control characters. -/
structure Reads (format : StreamFormat F) (line : StreamLine n F) : Prop where
  float : ∀ bits, JsonText.Printable (format.floatText bits)
  fromStr : format.fromStr (JsonText.value format.floatText (format.envelope line)) =
    some (format.envelope line)

theorem exists_object (format : StreamFormat F) (line : StreamLine n F) :
    ∃ inner, JsonText.value format.floatText (format.envelope line) = '{' :: (inner ++ ['}']) := by
  cases line with
  | metric d => exact ⟨_, rfl⟩
  | point x => exact ⟨_, rfl⟩

theorem trim_envelope (format : StreamFormat F) (line : StreamLine n F) :
    Str.trim (JsonText.value format.floatText (format.envelope line)) =
      JsonText.value format.floatText (format.envelope line) := by
  obtain ⟨inner, hinner⟩ := format.exists_object line
  rw [hinner, ← List.cons_append, Str.trim_append_singleton _ _ rfl, Str.trimStart]
  exact List.dropWhile_cons_of_neg (by decide)

/-- The event that the reader gets from a line. -/
def event : StreamLine n F → WireEvent
  | .metric d => ⟨"Metric".toList, d.name, some ⟨d.kind.asStr, some d.contains⟩⟩
  | .point x => ⟨"Point".toList, x.content.metricName, some ⟨[], none⟩⟩

theorem ofJson_envelope (format : StreamFormat F) (line : StreamLine n F) :
    WireEvent.ofJson (format.envelope line) = some (event line) := by
  cases line with
  | metric d => rfl
  | point x => rfl

theorem readLine_envelope {line : StreamLine n F} (h : format.Reads line)
    (stream : CanonicalEventStream) :
    stream.readLine format (JsonText.value format.floatText (format.envelope line)) =
      stream.add (event line) := by
  obtain ⟨inner, hinner⟩ := format.exists_object line
  have hne : (JsonText.value format.floatText (format.envelope line)).isEmpty = false := by
    rw [hinner]
    rfl
  rw [CanonicalEventStream.readLine]
  simp only [trim_envelope, hne, Bool.false_eq_true, if_false, h.fromStr, Option.bind_some,
    ofJson_envelope]

/-- The reader goes through the lines as they were written. -/
theorem readEventStream_file {output : List (StreamLine n F)}
    (h : ∀ line ∈ output, format.Reads line) :
    readEventStream format (format.file output) =
      output.foldl (fun stream line => stream.add (event line)) ⟨∅, ∅⟩ := by
  rw [readEventStream, file, Str.lines_flatMap, List.foldl_map]
  · exact List.foldl_ext _ _ _ fun stream line hline => readLine_envelope (h line hline) stream
  · intro line hline
    have hprintable := JsonText.value_printable (h line hline).float (format.envelope line)
    exact ⟨fun hc => absurd (hprintable _ hc) (by decide),
      fun hc => absurd (hprintable _ hc) (by decide)⟩

/-! ## What the lines add up to -/

/-- The definition that the reader makes of a line for `name`. -/
def defines (name : Str) : StreamLine n F → Option CanonicalMetricDef
  | .metric d => if d.name = name then some ⟨d.name, d.kind.tag, d.contains⟩ else none
  | .point _ => none

theorem add_metric (stream : CanonicalEventStream) (d : MetricDef) :
    stream.add (event (.metric d : StreamLine n F)) =
      if stream.metricDefs.contains d.name then stream
      else
        { stream with
          metricDefs := stream.metricDefs.insert d.name ⟨d.name, d.kind.tag, d.contains⟩ } := by
  refine (if_pos rfl).trans ?_
  simp only [event, EventStream.MetricKind.parse_asStr]
  rfl

theorem add_point (stream : CanonicalEventStream) (x : StreamSample n F) :
    stream.add (event (.point x)) =
      { stream with
        sampleCounts := stream.sampleCounts.insert x.content.metricName
          ((stream.sampleCounts.find? x.content.metricName).getD 0 + 1) } := rfl

/-- The first definition of a name is kept. -/
theorem find?_add_metricDefs (stream : CanonicalEventStream) (line : StreamLine n F) (name : Str) :
    (stream.add (event line)).metricDefs.find? name =
      (stream.metricDefs.find? name).or (defines name line) := by
  cases line with
  | point x => simp [add_point, defines]
  | metric d =>
      rw [add_metric, SortedMap.contains]
      by_cases hname : d.name = name
      · subst hname
        cases hfind : stream.metricDefs.find? d.name with
        | none => simp [defines, SortedMap.find?_insert]
        | some old => simp [hfind]
      · cases hfind : stream.metricDefs.find? d.name with
        | none => simp [defines, hname, SortedMap.find?_insert, Ne.symm hname]
        | some old => simp [defines, hname]

theorem find?_foldl_metricDefs (output : List (StreamLine n F)) (stream : CanonicalEventStream)
    (name : Str) :
    (output.foldl (fun stream line => stream.add (event line)) stream).metricDefs.find? name =
      (stream.metricDefs.find? name).or (output.findSome? (defines name)) := by
  induction output generalizing stream with
  | nil => simp
  | cons line output ih =>
      rw [List.foldl_cons, ih, find?_add_metricDefs, List.findSome?_cons, Option.or_assoc]
      cases defines name line <;> simp

theorem find?_add_sampleCounts (stream : CanonicalEventStream) (line : StreamLine n F)
    (name : Str) :
    ((stream.add (event line)).sampleCounts.find? name).getD 0 =
      (stream.sampleCounts.find? name).getD 0 +
        (EventStream.points [line]).countP fun x => x.content.metricName = name := by
  cases line with
  | metric d =>
      rw [add_metric]
      split <;> rfl
  | point x =>
      rw [add_point]
      by_cases hname : x.content.metricName = name
      · simp [EventStream.points, SortedMap.find?_insert, hname]
      · simp [EventStream.points, SortedMap.find?_insert, hname, Ne.symm hname]

theorem find?_foldl_sampleCounts (output : List (StreamLine n F)) (stream : CanonicalEventStream)
    (name : Str) :
    ((output.foldl (fun stream line => stream.add (event line)) stream).sampleCounts.find?
      name).getD
        0 = (stream.sampleCounts.find? name).getD 0 +
          (EventStream.points output).countP fun x => x.content.metricName = name := by
  induction output generalizing stream with
  | nil => simp [EventStream.points]
  | cons line output ih =>
      have hsplit : EventStream.points (line :: output) =
          EventStream.points [line] ++ EventStream.points output := by
        rw [EventStream.points, ← List.singleton_append, List.filterMap_append]
        rfl
      rw [List.foldl_cons, ih, find?_add_sampleCounts, hsplit, List.countP_append, Nat.add_assoc]

theorem isSome_findSome?_defines (output : List (StreamLine n F)) (name : Str) :
    (output.findSome? (defines name)).isSome = true ↔ name ∈ EventStream.defined output := by
  rw [List.findSome?_isSome_iff, EventStream.defined]
  simp only [List.mem_filterMap]
  constructor
  · rintro ⟨line, hline, hdefines⟩
    refine ⟨line, hline, ?_⟩
    cases line with
    | metric d => simpa [defines] using hdefines
    | point x => simp [defines] at hdefines
  · rintro ⟨line, hline, hname⟩
    refine ⟨line, hline, ?_⟩
    cases line with
    | metric d =>
        cases hname
        simp [defines]
    | point x => cases hname

theorem exists_of_defines {output : List (StreamLine n F)} {name : Str} {m : CanonicalMetricDef}
    (h : output.findSome? (defines name) = some m) :
    ∃ d, .metric d ∈ output ∧ d.name = name ∧ m = ⟨d.name, d.kind.tag, d.contains⟩ := by
  obtain ⟨line, hline, hdefines⟩ := List.exists_of_findSome?_eq_some h
  cases line with
  | metric d =>
      simp only [defines] at hdefines
      split at hdefines
      · rename_i hname
        cases hdefines
        exact ⟨d, hline, hname, rfl⟩
      · cases hdefines
  | point x => cases hdefines

end StreamFormat

namespace EventStream

variable {n : ℕ} {F : Type} [DecidableEq F]

/-- The reader gets from the file of a finished stream one definition for each recorded metric,
with the kind of a recorded event and what it contains, and the number of its points. -/
theorem read_file {capacity : ℕ} {es : List (Event n F)} {s : EventStream n F}
    {format : StreamFormat F} (hrun : (eventStreamSystem n F capacity).AnyRun es s)
    (hdone : s.writer = .done) (hreads : ∀ line ∈ s.output, format.Reads line) :
    (∀ name, ((readEventStream format (format.file s.output)).metricDefs.find? name).isSome = true ↔
        name ∈ s.recordedNames) ∧
      (∀ name m, (readEventStream format (format.file s.output)).metricDefs.find? name = some m →
        ∃ x ∈ s.postings.log, x.content.metricName = name ∧
          m = ⟨name, x.content.metricKind.tag, classifyContains x.content.metricKind name⟩) ∧
      ∀ name, ((readEventStream format (format.file s.output)).sampleCounts.find? name).getD 0 =
        (points s.output).countP fun x => x.content.metricName = name := by
  obtain ⟨hinv, hdef⟩ := defining_of_run hrun
  have hdefs : ∀ name, (readEventStream format (format.file s.output)).metricDefs.find? name =
      s.output.findSome? (StreamFormat.defines name) := by
    intro name
    rw [StreamFormat.readEventStream_file hreads, StreamFormat.find?_foldl_metricDefs]
    rfl
  refine ⟨fun name => ?_, fun name m hm => ?_, fun name => ?_⟩
  · rw [hdefs, StreamFormat.isSome_findSome?_defines, hdef.mem_defined_iff hinv hdone]
  · rw [hdefs] at hm
    obtain ⟨d, hd, hname, rfl⟩ := StreamFormat.exists_of_defines hm
    obtain ⟨x, hx, rfl⟩ := (sourced_of_run hrun).output d hd
    subst hname
    exact ⟨x, hx, rfl, rfl⟩
  · rw [StreamFormat.readEventStream_file hreads, StreamFormat.find?_foldl_sampleCounts]
    exact Nat.zero_add _

/-! ### A name with a newline, and a value that is no number -/

def brokenName : SinkEvent UInt64 := ⟨['a', '\n', '"'], .trend, 0, 0x7FF8000000000000, ∅⟩

def brokenDef : MetricDef := ⟨['a', '\n', '"'], .trend, "default".toList⟩

/-- What is written of the two lines of this stream. -/
def brokenWriter : StreamFormat UInt64 where
  toBits := id
  formatRfc3339 _ := "1970-01-01T00:00:00Z".toList
  floatText _ := ['0', '.', '0']
  fromStr _ := none

def brokenMetric : Json := StreamFormat.metricEnvelope brokenDef

def brokenPoint : Json := brokenWriter.pointEnvelope brokenName

/-- What is read back of them. -/
def brokenFromStr (text : Str) : Option Json :=
  if text = JsonText.value brokenWriter.floatText brokenMetric then some brokenMetric
  else if text = JsonText.value brokenWriter.floatText brokenPoint then some brokenPoint
  else none

def brokenFormat : StreamFormat UInt64 := { brokenWriter with fromStr := brokenFromStr }

theorem brokenFromStr_metric :
    brokenFromStr (JsonText.value brokenWriter.floatText brokenMetric) = some brokenMetric := by
  rw [brokenFromStr, if_pos rfl]

theorem brokenFromStr_point :
    brokenFromStr (JsonText.value brokenWriter.floatText brokenPoint) = some brokenPoint := by
  have hne : JsonText.value brokenWriter.floatText brokenPoint ≠
      JsonText.value brokenWriter.floatText brokenMetric := by decide +kernel
  rw [brokenFromStr, if_neg hne, if_pos rfl]

theorem brokenFormat_reads {line : StreamLine 1 UInt64}
    (h : brokenFormat.envelope line = brokenMetric ∨ brokenFormat.envelope line = brokenPoint) :
    brokenFormat.Reads line := by
  have hfloat : JsonText.Printable ['0', '.', '0'] := by
    exact JsonText.printable_of_all (by decide)
  refine ⟨fun _ => hfloat, ?_⟩
  rcases h with h | h
  · rw [h]
    exact brokenFromStr_metric
  · rw [h]
    exact brokenFromStr_point

theorem read_file_broken : ∃ s : EventStream 1 UInt64, s.recordedNames = [brokenName.metricName] ∧
    (∀ name, ((readEventStream brokenFormat (brokenFormat.file s.output)).metricDefs.find?
        name).isSome = true ↔ name ∈ s.recordedNames) ∧
      (∀ name m, (readEventStream brokenFormat (brokenFormat.file s.output)).metricDefs.find? name =
          some m → ∃ x ∈ s.postings.log, x.content.metricName = name ∧
            m = ⟨name, x.content.metricKind.tag, classifyContains x.content.metricKind name⟩) ∧
      ∀ name, ((readEventStream brokenFormat (brokenFormat.file s.output)).sampleCounts.find?
        name).getD 0 = (points s.output).countP fun x => x.content.metricName = name := by
  let contents : StreamLine 1 UInt64 → MetricDef ⊕ SinkEvent UInt64 := fun line =>
    match line with
    | .metric d => .inl d
    | .point x => .inr x.content
  obtain ⟨s, hrun, hdone, hnames, houtput⟩ : ∃ s, (eventStreamSystem 1 UInt64 1).AnyRun
      [.record 0 brokenName, .define 0, .observe 0, .send 0, .release 0, .recv, .closed, .flushDefs,
        .emitPoints, .snapshot] s ∧ s.writer = .done ∧
      s.recordedNames = [brokenName.metricName] ∧
      s.output.map contents = [.inl brokenDef, .inr brokenName] :=
    StepSystem.exists_run_of_exec _ rfl (by decide +kernel)
  refine ⟨s, hnames, read_file hrun hdone fun line hline => brokenFormat_reads ?_⟩
  have hcontents : contents line = .inl brokenDef ∨ contents line = .inr brokenName := by
    have hmem := List.mem_map_of_mem (f := contents) hline
    simpa [houtput] using hmem
  cases line with
  | metric d =>
      rcases hcontents with h | h
      · exact .inl (congrArg StreamFormat.metricEnvelope (Sum.inl.inj h))
      · cases h
  | point x =>
      rcases hcontents with h | h
      · cases h
      · exact .inr (congrArg brokenWriter.pointEnvelope (Sum.inr.inj h))

end EventStream

end K6Rs
