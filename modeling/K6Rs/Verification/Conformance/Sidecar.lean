import K6Rs.Model.Conformance
import K6Rs.Verification.EventStream.Reader

/-! # The files of a k6-rs run tell the harness what was lost

The sidecar is read back as it was written, so the harness distrusts a run exactly when the stream
lacks one of its events. -/

namespace K6Rs

/-! ## Typed maps -/

theorem readMap_object {α β : Type} {read : Json → Option α} {write : β → Json} {content : β → α}
    {members : List (Str × β)} (h : ∀ e ∈ members, read (write e.2) = some (content e.2)) :
    readMap read (.object (members.map fun e => (e.1, write e.2))) =
      some (.ofList (members.map fun e => (e.1, content e.2))) := by
  have hentries : (members.map fun e => (e.1, write e.2)).mapM
      (fun member => (read member.2).map fun x => (member.1, x)) =
        some (members.map fun e => (e.1, content e.2)) := by
    induction members with
    | nil => rfl
    | cons e members ih =>
        have hhead := h e List.mem_cons_self
        have htail := ih fun e he => h e (List.mem_cons_of_mem _ he)
        simp [hhead, htail]
  simp only [readMap, Json.asObject, Option.bind_eq_bind, Option.bind_some, hentries]
  rfl

/-! ## The sidecar -/

theorem wireDrops_ofJson (total : ℕ) (perMetric : KeyMap Str ℕ) :
    WireDrops.ofJson (.object [("total".toList, jsonU64 total),
      ("per_metric".toList, .object (perMetric.entries.map fun e => (e.1, jsonU64 e.2)))]) =
      some ⟨total, .ofList perMetric.entries⟩ := by
  have hmap := @readMap_object _ _ Json.asU64 jsonU64 id perMetric.entries fun _ _ => rfl
  have hmembers : (perMetric.entries.map fun e => (e.1, id e.2)) = perMetric.entries := by simp
  rw [hmembers] at hmap
  have hread : WireDrops.ofJson (.object [("total".toList, jsonU64 total),
      ("per_metric".toList, .object (perMetric.entries.map fun e => (e.1, jsonU64 e.2)))]) =
      (readMap Json.asU64 (.object (perMetric.entries.map fun e => (e.1, jsonU64 e.2)))).bind
        fun m => some ⟨total, m⟩ := rfl
  rw [hread, hmap, Option.bind_some]

theorem wireSidecar_toJson (sidecar : DiagnosticsSidecar) :
    WireSidecar.ofJson sidecar.toJson = some ⟨sidecar.capacity, sidecar.peakOccupancy,
      ⟨sidecar.total, .ofList sidecar.perMetric.entries⟩⟩ := by
  have hread : WireSidecar.ofJson sidecar.toJson =
      (WireDrops.ofJson (.object [("total".toList, jsonU64 sidecar.total),
        ("per_metric".toList,
          .object (sidecar.perMetric.entries.map fun e => (e.1, jsonU64 e.2)))])).bind
        fun d => some ⟨sidecar.capacity, sidecar.peakOccupancy, d⟩ := rfl
  rw [hread, wireDrops_ofJson, Option.bind_some]

/-! ## What the harness loads -/

theorem SideReliability.isUnreliable_eq_false_iff (side : SideReliability) :
    side.isUnreliable = false ↔ side.dropsTotal = 0 ∧ side.error = none := by
  rw [isUnreliable, Bool.or_eq_false_iff, decide_eq_false_iff_not, Nat.not_lt, Nat.le_zero,
    Option.isSome_eq_false_iff, Option.isNone_iff_eq_none]

/-- The two files of a finished run, as the writer leaves them, with what is relied on to read
them. -/
structure LeavesFiles {n : ℕ} {F : Type} [DecidableEq F] (format : HarnessFormat F) (files : Files)
    (path : Str) (s : EventStream n F) (sidecar : DiagnosticsSidecar) : Prop where
  filed : s.sidecar = some sidecar
  stream : files path = .ok (format.file s.output)
  beside : files (sidecarPath path) = .ok (format.pretty sidecar.toJson)
  readsLines : ∀ line ∈ s.output, format.Reads line
  readsSidecar : format.fromStr (format.pretty sidecar.toJson) = some sidecar.toJson

namespace LeavesFiles

open EventStream

variable {n : ℕ} {F : Type} [DecidableEq F] {format : HarnessFormat F} {files : Files} {path : Str}
  {s : EventStream n F} {sidecar : DiagnosticsSidecar}

theorem readEventStreamAt_eq (h : LeavesFiles format files path s sidecar) :
    readEventStreamAt format files path =
      .ok (readEventStream format.toStreamFormat (format.file s.output)) := by
  rw [readEventStreamAt, readToString, h.stream]
  rfl

/-- The side that the sidecar of a run is read as. -/
def side (sidecar : DiagnosticsSidecar) : SideReliability :=
  ⟨sidecar.capacity, sidecar.peakOccupancy, sidecar.total, .ofList sidecar.perMetric.entries, none⟩

theorem readSidecarRequired_eq (h : LeavesFiles format files path s sidecar) :
    readSidecarRequired format files path = .ok (side sidecar) := by
  have hread : (format.fromStr (format.pretty sidecar.toJson)).bind WireSidecar.ofJson =
      some ⟨sidecar.capacity, sidecar.peakOccupancy,
        ⟨sidecar.total, .ofList sidecar.perMetric.entries⟩⟩ := by
    rw [h.readsSidecar, Option.bind_some, wireSidecar_toJson]
  simp only [readSidecarRequired, readSidecarInner, h.beside, hread]
  rfl

theorem find?_side (sidecar : DiagnosticsSidecar) (name : Str) :
    (side sidecar).dropsPerMetric.find? name = sidecar.perMetric.find? name := by
  apply Option.ext
  intro count
  have hfun (k : Str) (v v' : ℕ) (hv : (k, v) ∈ sidecar.perMetric.entries)
      (hv' : (k, v') ∈ sidecar.perMetric.entries) : v = v' := by
    rw [← KeyMap.find?_eq_some_iff] at hv hv'
    exact Option.some.inj (hv.symm.trans hv')
  rw [side, SortedMap.find?_ofList_iff hfun, KeyMap.find?_eq_some_iff]

/-- What the loader makes of the run, whatever upstream left. -/
theorem loadSinkArtifacts_eq (h : LeavesFiles format files path s sidecar) (upstreamPath : Str) :
    (loadSinkArtifacts format files upstreamPath path).k6rsStream =
        some (readEventStream format.toStreamFormat (format.file s.output)) ∧
      (loadSinkArtifacts format files upstreamPath path).reliability.k6rs = side sidecar := by
  simp only [loadSinkArtifacts, h.readEventStreamAt_eq, h.readSidecarRequired_eq]
  exact ⟨rfl, trivial⟩

end LeavesFiles

namespace EventStream

variable {n : ℕ} {F : Type} [DecidableEq F]

variable {s : EventStream n F} {sidecar : DiagnosticsSidecar}

/-- When the sidecar is written, every recorded event is a point or was refused. -/
theorem Inv.perm_of_sidecar (h : s.Inv) (hsidecar : s.sidecar = some sidecar) :
    (points s.output ++ s.postings.refused).Perm s.postings.log := by
  have hdone := (h.filed sidecar hsidecar).1
  rw [← h.sent_of_done hdone]
  exact s.postings.perm_of_idle (h.idle_of_done hdone)

/-- A run lost no event when its points are the recorded events. -/
theorem Inv.points_perm_iff (h : s.Inv) (hsidecar : s.sidecar = some sidecar) :
    (points s.output).Perm s.postings.log ↔ sidecar.total = 0 := by
  have hperm := h.perm_of_sidecar hsidecar
  have htotal : sidecar.total = s.postings.refused.length := by
    obtain ⟨_, rfl⟩ := h.filed sidecar hsidecar
    exact h.counted.total
  constructor
  · intro hpoints
    have hall := hperm.length_eq
    rw [List.length_append, hpoints.length_eq] at hall
    omega
  · intro hzero
    have hrefused : s.postings.refused = [] := List.length_eq_zero_iff.mp (htotal ▸ hzero)
    simpa [hrefused] using hperm

/-- The points and the drops of a metric make up what was recorded for it. -/
theorem Inv.countP_points (h : s.Inv) (hsidecar : s.sidecar = some sidecar) (name : Str) :
    ((points s.output).countP fun x => x.content.metricName = name) +
        (sidecar.perMetric.find? name).getD 0 =
      s.postings.log.countP fun x => x.content.metricName = name := by
  have hperm := h.perm_of_sidecar hsidecar
  have hdrops : (sidecar.perMetric.find? name).getD 0 =
      s.postings.refused.countP fun x => x.content.metricName = name := by
    obtain ⟨_, rfl⟩ := h.filed sidecar hsidecar
    exact h.counted.metric name
  rw [hdrops, ← List.countP_append, hperm.countP_eq]

/-! ### The stream read back -/

section ReadBack

variable {format : StreamFormat F}

omit [DecidableEq F] in
theorem find?_metricDefs_file {output : List (StreamLine n F)}
    (hreads : ∀ line ∈ output, format.Reads line) (name : Str) :
    (readEventStream format (format.file output)).metricDefs.find? name =
      output.findSome? (StreamFormat.defines name) := by
  rw [StreamFormat.readEventStream_file hreads, StreamFormat.find?_foldl_metricDefs]
  rfl

omit [DecidableEq F] in
theorem find?_sampleCounts_file {output : List (StreamLine n F)}
    (hreads : ∀ line ∈ output, format.Reads line) (name : Str) :
    ((readEventStream format (format.file output)).sampleCounts.find? name).getD 0 =
      (points output).countP fun x => x.content.metricName = name := by
  rw [StreamFormat.readEventStream_file hreads, StreamFormat.find?_foldl_sampleCounts]
  exact Nat.zero_add _

variable {capacity : ℕ} {es : List (Event n F)}

theorem contains_metricDefs_file_iff (hrun : (eventStreamSystem n F capacity).AnyRun es s)
    (hdone : s.writer = .done) (hreads : ∀ line ∈ s.output, format.Reads line) (name : Str) :
    (readEventStream format (format.file s.output)).metricDefs.contains name = true ↔
      name ∈ s.recordedNames := by
  obtain ⟨hinv, hdef⟩ := defining_of_run hrun
  rw [SortedMap.contains, find?_metricDefs_file hreads, StreamFormat.isSome_findSome?_defines,
    hdef.mem_defined_iff hinv hdone]

/-- A definition that is read back is that of a recorded event. -/
theorem exists_of_metricDefs_file (hrun : (eventStreamSystem n F capacity).AnyRun es s)
    (hreads : ∀ line ∈ s.output, format.Reads line) {name : Str} {m : CanonicalMetricDef}
    (hm : (readEventStream format (format.file s.output)).metricDefs.find? name = some m) :
    ∃ x ∈ s.postings.log, x.content.metricName = name ∧
      m = ⟨name, x.content.metricKind.tag, classifyContains x.content.metricKind name⟩ := by
  rw [find?_metricDefs_file hreads] at hm
  obtain ⟨d, hd, hname, rfl⟩ := StreamFormat.exists_of_defines hm
  obtain ⟨x, hx, rfl⟩ := (sourced_of_run hrun).output d hd
  subst hname
  exact ⟨x, hx, rfl, rfl⟩

end ReadBack

/-- The harness distrusts a k6-rs run exactly when its stream lacks a recorded event, and in any
case the samples that it counts and the drops that it reads make up what each metric recorded. -/
theorem loadSinkArtifacts_accounts {capacity : ℕ} {es : List (Event n F)} {s : EventStream n F}
    {sidecar : DiagnosticsSidecar} {format : HarnessFormat F} {files : Files} {path : Str}
    (upstreamPath : Str) (hrun : (eventStreamSystem n F capacity).AnyRun es s)
    (hfiles : LeavesFiles format files path s sidecar) :
    ((loadSinkArtifacts format files upstreamPath path).reliability.k6rs.isUnreliable = false ↔
        (points s.output).Perm s.postings.log) ∧
      ∃ stream, (loadSinkArtifacts format files upstreamPath path).k6rsStream = some stream ∧
        ∀ name, (stream.metricDefs.contains name = true ↔ name ∈ s.recordedNames) ∧
          (stream.sampleCounts.find? name).getD 0 +
              ((loadSinkArtifacts format files upstreamPath
                path).reliability.k6rs.dropsPerMetric.find?
                name).getD 0 =
            s.postings.log.countP fun x => x.content.metricName = name := by
  have hinv := inv_of_run hrun
  have hdone := (hinv.filed sidecar hfiles.filed).1
  obtain ⟨hstream, hside⟩ := hfiles.loadSinkArtifacts_eq upstreamPath
  refine ⟨?_, _, hstream, fun name => ⟨?_, ?_⟩⟩
  · rw [hside, hinv.points_perm_iff hfiles.filed, SideReliability.isUnreliable_eq_false_iff]
    exact and_iff_left rfl
  · exact contains_metricDefs_file_iff hrun hdone hfiles.readsLines name
  · rw [hside, find?_sampleCounts_file hfiles.readsLines, LeavesFiles.find?_side,
      hinv.countP_points hfiles.filed]

/-! ### A run that lost the second of two events -/

def crowdedEvent : SinkEvent UInt64 := ⟨['a'], .counter, 0, 0, ∅⟩

def crowdedDef : MetricDef := ⟨['a'], .counter, "default".toList⟩

def crowdedRun : List (Event 1 UInt64) :=
  [.record 0 crowdedEvent, .define 0, .observe 0, .send 0, .record 0 crowdedEvent, .define 0,
    .observe 0, .send 0, .countDrop 0, .release 0, .recv, .closed, .flushDefs, .emitPoints,
    .snapshot]

def crowdedWriter : StreamFormat UInt64 where
  toBits := id
  formatRfc3339 _ := "1970-01-01T00:00:00Z".toList
  floatText _ := "0.0".toList
  fromStr _ := none

def crowdedMetric : Json := StreamFormat.metricEnvelope crowdedDef

def crowdedPoint : Json := crowdedWriter.pointEnvelope crowdedEvent

def crowdedText (v : Json) : Str := JsonText.value crowdedWriter.floatText v

/-- What is read back of the two lines and of the sidecar. -/
def crowdedFromStr (sidecar : DiagnosticsSidecar) (text : Str) : Option Json :=
  if text = crowdedText sidecar.toJson then some sidecar.toJson
  else if text = crowdedText crowdedMetric then some crowdedMetric
  else if text = crowdedText crowdedPoint then some crowdedPoint
  else none

def crowdedFormat (sidecar : DiagnosticsSidecar) : HarnessFormat UInt64 where
  toStreamFormat := { crowdedWriter with fromStr := crowdedFromStr sidecar }
  ofBits := id
  pretty := crowdedText
  serdeError _ := []

theorem crowdedText_ne (sidecar : DiagnosticsSidecar) {v : Json} {c : Char} (hc : 'c' ≠ c)
    (h : (crowdedText v)[2]? = some c) : crowdedText v ≠ crowdedText sidecar.toJson := by
  intro heq
  have hsecond : (crowdedText sidecar.toJson)[2]? = some 'c' := rfl
  rw [← heq, h] at hsecond
  exact hc (Option.some.inj hsecond).symm

theorem crowdedFormat_reads (sidecar : DiagnosticsSidecar) {line : StreamLine 1 UInt64}
    (h : crowdedWriter.envelope line = crowdedMetric ∨ crowdedWriter.envelope line = crowdedPoint) :
    (crowdedFormat sidecar).Reads line := by
  have hfloat : JsonText.Printable "0.0".toList := JsonText.printable_of_all (by decide)
  have hmetric : crowdedText crowdedMetric ≠ crowdedText sidecar.toJson :=
    crowdedText_ne sidecar (by decide) (c := 't') rfl
  have hpoint : crowdedText crowdedPoint ≠ crowdedText sidecar.toJson :=
    crowdedText_ne sidecar (by decide) (c := 'm') rfl
  have hne : crowdedText crowdedPoint ≠ crowdedText crowdedMetric := by decide +kernel
  refine ⟨fun _ => hfloat, ?_⟩
  change crowdedFromStr sidecar (crowdedText (crowdedWriter.envelope line)) =
    some (crowdedWriter.envelope line)
  rcases h with h | h
  · rw [h, crowdedFromStr, if_neg hmetric, if_pos rfl]
  · rw [h, crowdedFromStr, if_neg hpoint, if_neg hne, if_pos rfl]

theorem loadSinkArtifacts_accounts_crowded :
    ∃ (s : EventStream 1 UInt64) (format : HarnessFormat UInt64)
    (files : Files), s.postings.log.length = 2 ∧ (points s.output).length = 1 ∧
      ((loadSinkArtifacts format files ['u'] ['r']).reliability.k6rs.isUnreliable = false ↔
        (points s.output).Perm s.postings.log) ∧
      ∃ stream, (loadSinkArtifacts format files ['u'] ['r']).k6rsStream = some stream ∧
        ∀ name, (stream.metricDefs.contains name = true ↔ name ∈ s.recordedNames) ∧
          (stream.sampleCounts.find? name).getD 0 +
              ((loadSinkArtifacts format files ['u'] ['r']).reliability.k6rs.dropsPerMetric.find?
                name).getD 0 =
            s.postings.log.countP fun x => x.content.metricName = name := by
  let contents : StreamLine 1 UInt64 → MetricDef ⊕ SinkEvent UInt64 := fun line =>
    match line with
    | .metric d => .inl d
    | .point x => .inr x.content
  have hexec : ∃ s, (eventStreamSystem 1 UInt64 1).AnyRun crowdedRun s ∧
      ((s.sidecar.isSome ∧ s.postings.log.length = 2) ∧ (points s.output).length = 1) ∧
        s.output.map contents = [.inl crowdedDef, .inr crowdedEvent] :=
    StepSystem.exists_run_of_exec _ rfl (by decide +kernel)
  obtain ⟨s, hrun, ⟨⟨hsome, hlog⟩, hpoints⟩, houtput⟩ := hexec
  obtain ⟨sidecar, hsidecar⟩ := Option.isSome_iff_exists.mp hsome
  let format := crowdedFormat sidecar
  let files : Files := fun path =>
    if path = ['r'] then .ok (format.file s.output)
    else if path = sidecarPath ['r'] then .ok (format.pretty sidecar.toJson)
    else .error []
  have hbeside : sidecarPath ['r'] ≠ ['r'] := by decide
  refine ⟨s, format, files, hlog, hpoints, loadSinkArtifacts_accounts ['u'] hrun
    ⟨hsidecar, if_pos rfl, (if_neg hbeside).trans (if_pos rfl), ?_, if_pos rfl⟩⟩
  intro line hline
  refine crowdedFormat_reads sidecar ?_
  have hcontents : contents line = .inl crowdedDef ∨ contents line = .inr crowdedEvent := by
    have hmem := List.mem_map_of_mem (f := contents) hline
    simpa [houtput] using hmem
  cases line with
  | metric d =>
      rcases hcontents with h | h
      · exact .inl (congrArg StreamFormat.metricEnvelope (Sum.inl.inj h))
      · cases h
  | point x =>
      rcases hcontents with h | h
      · cases h
      · exact .inr (congrArg crowdedWriter.pointEnvelope (Sum.inr.inj h))

end EventStream

end K6Rs
