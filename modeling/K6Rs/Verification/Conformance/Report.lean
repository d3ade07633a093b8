import K6Rs.Verification.Conformance.Adapter
import K6Rs.Verification.RunDiff

/-! # What a passed script and a clean exit stand for

A script passes only on evidence: both streams and the sidecar are read, nothing was dropped, both
binaries end as expected, and the comparison finds nothing. No known drift hides a file that could
not be read. -/

namespace K6Rs

open FloatOps

/-! ## Results -/

theorem Reliability.isUnreliable_eq_false_iff (rel : Reliability) :
    rel.isUnreliable = false ↔ rel.upstream.isUnreliable = false ∧
    rel.k6rs.isUnreliable = false := by
  rw [isUnreliable, Bool.or_eq_false_iff]

theorem ScriptReport.result_eq_pass_iff (report : ScriptReport) :
    report.result = .pass ↔
      report.findings = [] ∧ (report.reliability.map Reliability.isUnreliable).getD false =
      false := by
  rw [result, ScriptResult.fromFindingsAndReliability]
  cases (report.reliability.map Reliability.isUnreliable).getD false with
  | true => simp
  | false => cases report.findings <;> simp

theorem ScriptReport.result_eq_unreliable_iff (report : ScriptReport) :
    report.result = .unreliable ↔
      (report.reliability.map Reliability.isUnreliable).getD false = true := by
  rw [result, ScriptResult.fromFindingsAndReliability]
  cases (report.reliability.map Reliability.isUnreliable).getD false with
  | true => simp
  | false => cases report.findings <;> simp

theorem dominate_eq_pass_iff (a b : ScriptResult) :
    dominate a b = .pass ↔ a = .pass ∧ b = .pass := by
  cases a <;> cases b <;> decide

theorem dominate_eq_unreliable_iff (a b : ScriptResult) :
    dominate a b = .unreliable ↔ a = .unreliable ∨ b = .unreliable := by
  cases a <;> cases b <;> decide

theorem foldl_dominate_eq_pass_iff (statuses : List ScriptResult) (a : ScriptResult) :
    statuses.foldl dominate a = .pass ↔ a = .pass ∧ ∀ b ∈ statuses, b = .pass := by
  induction statuses generalizing a with
  | nil => simp
  | cons b statuses ih =>
      rw [List.foldl_cons, ih, dominate_eq_pass_iff, List.forall_mem_cons, and_assoc]

theorem foldl_dominate_eq_unreliable_iff (statuses : List ScriptResult) (a : ScriptResult) :
    statuses.foldl dominate a = .unreliable ↔ a = .unreliable ∨ ∃ b ∈ statuses,
    b = .unreliable := by
  induction statuses generalizing a with
  | nil => simp
  | cons b statuses ih =>
      rw [List.foldl_cons, ih, dominate_eq_unreliable_iff, List.exists_mem_cons_iff, or_assoc]

theorem foldl_printReports (reports : List ScriptReport) (allClean : Bool) :
    reports.foldl (fun allClean r => if r.result ≠ .pass then false else allClean) allClean = true ↔
      allClean = true ∧ ∀ r ∈ reports, r.result = .pass := by
  induction reports generalizing allClean with
  | nil => simp
  | cons r reports ih =>
      rw [List.foldl_cons, ih, List.forall_mem_cons]
      by_cases h : r.result = .pass
      · simp [h]
      · simp [h]

theorem printReports_iff (reports : List ScriptReport) :
    printReports reports = true ↔ ∀ r ∈ reports, r.result = .pass := by
  rw [printReports, foldl_printReports]
  exact and_iff_right rfl

/-! ## One script -/

section

variable {F : Type}

theorem loadFinding_eq_nil_iff {α : Type} (kind : FindingKind) (selector : Str)
    (read : Except Str α) :
    loadFinding kind selector read = [] ↔ ∃ a, read = .ok a := by
  cases read <;> simp [loadFinding]

theorem exitFinding_eq_nil_iff (selector binary : String) (exitCode expected : ℤ) :
    exitFinding selector binary exitCode expected = [] ↔ exitCode = expected := by
  rw [exitFinding]
  split
  · simp_all
  · simp_all

theorem adapt_exitCode {files : Files} {parse : Str → Except Str (CanonicalSummary F)}
    {artifacts : RunArtifacts} {run : CanonicalRun F} (h : adapt files parse artifacts = .ok run) :
    run.exitCode = artifacts.exitCode := by
  rw [adapt] at h
  obtain ⟨raw, _, h⟩ := Except.bind_eq_ok_iff.mp h
  obtain ⟨summary, _, h⟩ := Except.bind_eq_ok_iff.mp h
  cases h
  rfl

variable [FloatOps F] [FloatParse F]

/-- The two runs of a script, as the harness is given them. -/
structure ScriptRuns (F : Type) where
  name : Str
  exp : ScriptExpectations F
  upstream : RunArtifacts
  k6rs : RunArtifacts
  files : Files

namespace ScriptRuns

variable (format : HarnessFormat F) (text : DetailFormat F) (runs : ScriptRuns F)

def run : Except Str ScriptReport :=
  runOne format text runs.files runs.name runs.exp runs.upstream runs.k6rs

def sink : SinkArtifacts :=
  loadSinkArtifacts format runs.files runs.upstream.outJsonPath runs.k6rs.outJsonPath

/-- The report on two runs that could be adapted. -/
def report (left right : CanonicalRun F) : ScriptReport where
  name := runs.name
  findings := (runs.sink format).preDiffFindings ++
    diff text { left with eventStream := (runs.sink format).upstreamStream }
      { right with eventStream := (runs.sink format).k6rsStream } runs.exp.toExpectations ++
    exitFinding "<upstream>" "upstream" left.exitCode runs.exp.expectedExitCode ++
    exitFinding "<k6rs>" "k6-rs" right.exitCode runs.exp.expectedExitCode
  reliability := some (runs.sink format).reliability

theorem run_eq_ok_iff (report : ScriptReport) :
    runs.run format text = .ok report ↔ ∃ left right,
      adapt runs.files (UpstreamSummary.parse format) runs.upstream = .ok left ∧
        adapt runs.files (K6rsSummary.parse format) runs.k6rs = .ok right ∧
          runs.report format text left right = report := by
  rw [run, runOne, Except.bind_eq_ok_iff]
  simp only [Except.bind_eq_ok_iff]
  constructor
  · rintro ⟨left, hleft, right, hright, h⟩
    exact ⟨left, right, hleft, hright, Except.ok.inj h⟩
  · rintro ⟨left, right, hleft, hright, h⟩
    exact ⟨left, hleft, right, hright, congrArg Except.ok h⟩

/-- What a script passes on: everything is read, nothing was dropped, both binaries end as expected,
and nothing differs. -/
structure Evidence (left right : CanonicalRun F) (leftStream rightStream : CanonicalEventStream)
    (side : SideReliability) : Prop where
  leftRun : adapt runs.files (UpstreamSummary.parse format) runs.upstream = .ok left
  rightRun : adapt runs.files (K6rsSummary.parse format) runs.k6rs = .ok right
  leftRead : readEventStreamAt format runs.files runs.upstream.outJsonPath = .ok leftStream
  rightRead : readEventStreamAt format runs.files runs.k6rs.outJsonPath = .ok rightStream
  sideRead : readSidecarRequired format runs.files runs.k6rs.outJsonPath = .ok side
  noDrop : side.isUnreliable = false
  upstreamNoDrop :
    (readSidecarTolerant format runs.files runs.upstream.outJsonPath).isUnreliable = false
  upstreamExit : runs.upstream.exitCode = runs.exp.expectedExitCode
  k6rsExit : runs.k6rs.exitCode = runs.exp.expectedExitCode
  alike : diff text { left with eventStream := some leftStream }
    { right with eventStream := some rightStream } runs.exp.toExpectations = []

variable {format text runs}

omit [FloatOps F] [FloatParse F] in
/-- What the loader makes of files that can all be read. -/
theorem sink_of_read {leftStream rightStream : CanonicalEventStream} {side : SideReliability}
    (hleft : readEventStreamAt format runs.files runs.upstream.outJsonPath = .ok leftStream)
    (hright : readEventStreamAt format runs.files runs.k6rs.outJsonPath = .ok rightStream)
    (hside : readSidecarRequired format runs.files runs.k6rs.outJsonPath = .ok side) :
    runs.sink format = ⟨some leftStream, some rightStream,
      ⟨readSidecarTolerant format runs.files runs.upstream.outJsonPath, side⟩, []⟩ := by
  simp only [sink, loadSinkArtifacts, hleft, hright, hside]
  rfl

omit [FloatOps F] [FloatParse F] in
theorem preDiffFindings_eq_nil_iff : (runs.sink format).preDiffFindings = [] ↔
    (∃ stream, readEventStreamAt format runs.files runs.upstream.outJsonPath = .ok stream) ∧
      (∃ stream, readEventStreamAt format runs.files runs.k6rs.outJsonPath = .ok stream) ∧
        ∃ side, readSidecarRequired format runs.files runs.k6rs.outJsonPath = .ok side := by
  simp only [sink, loadSinkArtifacts, List.append_eq_nil_iff, loadFinding_eq_nil_iff, and_assoc]

theorem passes_iff : (∃ report, runs.run format text = .ok report ∧ report.result = .pass) ↔
    ∃ left right leftStream rightStream side,
      runs.Evidence format text left right leftStream rightStream side := by
  constructor
  · rintro ⟨_, hrun, hpass⟩
    obtain ⟨left, right, hleft, hright, rfl⟩ := (runs.run_eq_ok_iff format text _).mp hrun
    obtain ⟨hfindings, hreliable⟩ := (ScriptReport.result_eq_pass_iff _).mp hpass
    simp only [report, List.append_eq_nil_iff, exitFinding_eq_nil_iff] at hfindings
    obtain ⟨⟨⟨hpre, halike⟩, hexitLeft⟩, hexitRight⟩ := hfindings
    obtain ⟨⟨leftStream, hls⟩, ⟨rightStream, hrs⟩, side, hside⟩ :=
      preDiffFindings_eq_nil_iff.mp hpre
    have hsink := sink_of_read hls hrs hside
    rw [hsink] at halike
    have hsides : Reliability.isUnreliable
        ⟨readSidecarTolerant format runs.files runs.upstream.outJsonPath, side⟩ = false := by
      rw [report, hsink] at hreliable
      exact hreliable
    obtain ⟨hupstream, hk6rs⟩ := (Reliability.isUnreliable_eq_false_iff _).mp hsides
    exact ⟨left, right, leftStream, rightStream, side, hleft, hright, hls, hrs, hside, hk6rs,
      hupstream, (adapt_exitCode hleft).symm.trans hexitLeft,
      (adapt_exitCode hright).symm.trans hexitRight, halike⟩
  · rintro ⟨left, right, leftStream, rightStream, side, h⟩
    have hsink := sink_of_read h.leftRead h.rightRead h.sideRead
    refine ⟨runs.report format text left right,
      (runs.run_eq_ok_iff format text _).mpr ⟨left, right, h.leftRun, h.rightRun, rfl⟩, ?_⟩
    rw [ScriptReport.result_eq_pass_iff]
    refine ⟨?_, ?_⟩
    · simp only [report, hsink, h.alike, List.append_eq_nil_iff, exitFinding_eq_nil_iff, true_and]
      exact ⟨(adapt_exitCode h.leftRun).trans h.upstreamExit,
        (adapt_exitCode h.rightRun).trans h.k6rsExit⟩
    · rw [report, hsink]
      exact (Reliability.isUnreliable_eq_false_iff _).mpr ⟨h.upstreamNoDrop, h.noDrop⟩

end ScriptRuns

/-! ## The whole harness -/

/-- The report says pass exactly when no script fails or is unreliable, and unreliable exactly when
a script is, in whatever order the scripts come. -/
theorem overallStatus_spec (reports : List ScriptReport) :
    ((buildJsonReport reports).overallStatus = .pass ↔ printReports reports = true) ∧
      ((buildJsonReport reports).overallStatus = .unreliable ↔
        ∃ r ∈ reports, r.result = .unreliable) := by
  have hstatuses : ((buildJsonReport reports).scripts.map JsonScriptReport.status) =
      reports.map ScriptReport.result := by
    simp [buildJsonReport, Function.comp_def]
  have hoverall : (buildJsonReport reports).overallStatus =
      (reports.map ScriptReport.result).foldl dominate .pass := by
    rw [← hstatuses]
    rfl
  rw [hoverall, foldl_dominate_eq_pass_iff, foldl_dominate_eq_unreliable_iff, printReports_iff]
  simp

theorem mapM_id_eq_ok_iff {α : Type} {l : List (Except Str α)} {as : List α} :
    l.mapM id = .ok as ↔ l = as.map .ok := by
  rw [Except.mapM_eq_ok_iff, ← List.forall₂_eq_eq_eq, List.forall₂_map_right_iff]
  rfl

/-- The harness exits with success exactly when there are scripts, every one of them passes on
evidence, and a report that says so has been written. -/
theorem runHarness_eq_zero_iff (format : HarnessFormat F) (text : DetailFormat F)
    (scripts : List (ScriptRuns F)) (writeReport : JsonReport → Except Str Unit) :
    runHarness (scripts.map (ScriptRuns.run format text)) writeReport = 0 ↔
      scripts ≠ [] ∧
        (∀ runs ∈ scripts, ∃ left right leftStream rightStream side,
          runs.Evidence format text left right leftStream rightStream side) ∧
        ∃ reports, scripts.map (ScriptRuns.run format text) = reports.map .ok ∧
          (buildJsonReport reports).overallStatus = .pass ∧
          writeReport (buildJsonReport reports) = .ok () := by
  constructor
  · intro h
    rw [runHarness] at h
    split at h
    · cases h
    · rename_i hne
      split at h
      · cases h
      · rename_i reports hreports
        rw [mapM_id_eq_ok_iff] at hreports
        split at h
        · cases h
        · rename_i hwrite
          split at h
          · rename_i hclean
            refine ⟨by simpa using hne, fun runs hruns => ?_, reports, hreports,
              (overallStatus_spec reports).1.mpr hclean, hwrite⟩
            have hmem : runs.run format text ∈ reports.map .ok :=
              hreports ▸ List.mem_map_of_mem hruns
            obtain ⟨report, hreport, hrun⟩ := List.mem_map.mp hmem
            exact ScriptRuns.passes_iff.mp
              ⟨report, hrun.symm, (printReports_iff reports).mp hclean report hreport⟩
          · cases h
  · rintro ⟨hne, -, reports, hreports, hpass, hwrite⟩
    have hclean := (overallStatus_spec reports).1.mp hpass
    rw [runHarness, if_neg (by simpa using hne), mapM_id_eq_ok_iff.mpr hreports]
    simp only [hwrite, hclean, if_true]

/-! ## What a passed comparison says about the run -/

omit [FloatOps F] [FloatParse F] in
theorem diffUnion_eq_nil {ν : Type} {exp : Expectations F} {l r : SortedMap Str ν}
    {entry : Str → Option ν → Option ν → List DiffFinding} (h : diffUnion exp l r entry = [])
    {key : Str} (hkey : l.contains key = true ∨ r.contains key = true)
    (hknown : exp.isKnownDrift key = false) : entry key (l.find? key) (r.find? key) = [] := by
  have hall := List.flatMap_eq_nil_iff.mp h key ((mem_unionKeys l r key).mpr hkey)
  rwa [hknown, if_neg Bool.false_ne_true] at hall

theorem diffPresent_eq_nil {ν : Type} {missing : DiffFinding} {both : ν → ν → List DiffFinding}
    {l r : Option ν} (h : diffPresent missing both l r = []) :
    (l.isSome = r.isSome) ∧ ∀ a b, l = some a → r = some b → both a b = [] := by
  cases l with
  | none =>
      cases r with
      | none => exact ⟨rfl, fun a b ha => by cases ha⟩
      | some b => cases h
  | some a =>
      cases r with
      | none => cases h
      | some b =>
          refine ⟨rfl, fun a' b' ha hb => ?_⟩
          cases ha
          cases hb
          exact h

omit [FloatOps F] [FloatParse F] in
theorem diffMetricDefs_eq_nil {text : DetailFormat F} {name : Str} {l r : CanonicalMetricDef}
    (h : diffMetricDefs text name l r = []) : l.kind = r.kind ∧ l.contains = r.contains := by
  rw [diffMetricDefs, List.append_eq_nil_iff] at h
  refine ⟨?_, ?_⟩
  · by_contra hkind
    rw [if_pos hkind] at h
    cases h.1
  · by_contra hcontains
    rw [if_pos hcontains] at h
    cases h.2

theorem diffSampleCounts_eq_nil {text : DetailFormat F} {exp : Expectations F} {name : Str}
    {l r : Option ℕ} (h : diffSampleCounts text exp name l r = []) :
    checkTolerance text "sample_count".toList (ofNat (l.getD 0)) (ofNat (r.getD 0))
      (exp.toleranceFor name).count = none := by
  rw [diffSampleCounts, List.map_eq_nil_iff] at h
  exact Option.toList_eq_nil_iff.mp h

variable [DecidableEq F] {n : ℕ}

open EventStream

/-- A passed script vouches for its k6-rs run: the stream has every recorded event, both binaries
ended as expected, and but for known drifts upstream defines the recorded metrics, as they were
recorded, and has as many samples of each as the tolerance allows. -/
theorem passes_accounts {capacity : ℕ} {es : List (Event n F)} {s : EventStream n F}
    {sidecar : DiagnosticsSidecar} {format : HarnessFormat F} {text : DetailFormat F}
    {runs : ScriptRuns F} (hrun : (eventStreamSystem n F capacity).AnyRun es s)
    (hfiles : LeavesFiles format runs.files runs.k6rs.outJsonPath s sidecar)
    (hpass : ∃ report, runs.run format text = .ok report ∧ report.result = .pass) :
    (points s.output).Perm s.postings.log ∧ runs.upstream.exitCode = runs.exp.expectedExitCode ∧
      runs.k6rs.exitCode = runs.exp.expectedExitCode ∧
      ∃ stream, readEventStreamAt format runs.files runs.upstream.outJsonPath = .ok stream ∧
        ∀ name, runs.exp.isKnownDrift name = false →
          (stream.metricDefs.contains name = true ↔ name ∈ s.recordedNames) ∧
          (∀ d, stream.metricDefs.find? name = some d → ∃ x ∈ s.postings.log,
            x.content.metricName = name ∧ d.kind = x.content.metricKind.tag ∧
              d.contains = classifyContains x.content.metricKind name) ∧
          (name ∈ s.recordedNames ∨ stream.sampleCounts.contains name = true →
            checkTolerance text "sample_count".toList
              (ofNat ((stream.sampleCounts.find? name).getD 0))
              (ofNat (s.postings.log.countP fun x => x.content.metricName = name))
              (runs.exp.toleranceFor name).count = none) := by
  obtain ⟨left, right, stream, rightStream, side, h⟩ := ScriptRuns.passes_iff.mp hpass
  have hinv := inv_of_run hrun
  have hdone := (hinv.filed sidecar hfiles.filed).1
  have hdefs := contains_metricDefs_file_iff hrun hdone hfiles.readsLines
  have hcounts := find?_sampleCounts_file hfiles.readsLines
  obtain rfl := Except.ok.inj (h.rightRead.symm.trans hfiles.readEventStreamAt_eq)
  obtain rfl := Except.ok.inj (h.sideRead.symm.trans hfiles.readSidecarRequired_eq)
  have hperm : (points s.output).Perm s.postings.log :=
    (hinv.points_perm_iff hfiles.filed).mpr
      ((SideReliability.isUnreliable_eq_false_iff _).mp h.noDrop).1
  have hstreams := h.alike
  simp only [diff, diffStreams, diffEventStreams, List.append_eq_nil_iff] at hstreams
  obtain ⟨⟨-, hdefsAlike, hcountsAlike⟩, -⟩ := hstreams
  have hcount : ∀ name, ((readEventStream format.toStreamFormat
      (format.file s.output)).sampleCounts.find? name).getD 0 =
        s.postings.log.countP fun x => x.content.metricName = name := by
    intro name
    rw [hcounts, hperm.countP_eq]
  refine ⟨hperm, h.upstreamExit, h.k6rsExit, stream, h.leftRead, fun name hknown => ⟨?_, ?_, ?_⟩⟩
  · rw [← hdefs name]
    by_cases hkey : stream.metricDefs.contains name = true ∨
        ((readEventStream format.toStreamFormat (format.file s.output)).metricDefs.contains name) =
          true
    · rw [SortedMap.contains, SortedMap.contains,
        (diffPresent_eq_nil (diffUnion_eq_nil hdefsAlike hkey hknown)).1]
    · exact iff_of_false (fun hl => hkey (.inl hl)) fun hr => hkey (.inr hr)
  · intro d hd
    have hleft : stream.metricDefs.contains name = true := by
      rw [SortedMap.contains, hd]
      rfl
    obtain ⟨hsome, hboth⟩ := diffPresent_eq_nil (diffUnion_eq_nil hdefsAlike (.inl hleft) hknown)
    obtain ⟨m, hm⟩ := Option.isSome_iff_exists.mp (hsome.symm.trans hleft)
    obtain ⟨x, hx, hname, rfl⟩ := exists_of_metricDefs_file hrun hfiles.readsLines hm
    obtain ⟨hkind, hcontains⟩ := diffMetricDefs_eq_nil (hboth d _ hd hm)
    exact ⟨x, hx, hname, hkind, hcontains⟩
  · intro hkey
    rw [← hcount name]
    refine diffSampleCounts_eq_nil (diffUnion_eq_nil hcountsAlike ?_ hknown)
    rcases hkey with hrecorded | hsampled
    · obtain ⟨x, hx, hxname⟩ := List.mem_map.mp hrecorded
      have hpos : 0 < s.postings.log.countP fun x => x.content.metricName = name :=
        List.countP_pos_iff.mpr ⟨x, hx, decide_eq_true hxname⟩
      rw [← hcount name] at hpos
      refine .inr ?_
      rw [SortedMap.contains]
      by_contra hnone
      rw [Option.not_isSome_iff_eq_none.mp hnone] at hpos
      exact absurd hpos (lt_irrefl 0)
    · exact .inl hsampled

end

/-! ### A script that passes -/

theorem find?_of_nodup_map {α β : Type} [DecidableEq β] {f : α → β} {l : List α}
    (h : (l.map f).Nodup) {a : α} (ha : a ∈ l) :
    (l.find? fun b => decide (f b = f a)) = some a := by
  induction l with
  | nil => cases ha
  | cons b l ih =>
      rw [List.map_cons, List.nodup_cons] at h
      rw [List.find?_cons]
      rcases List.mem_cons.mp ha with rfl | hmem
      · rw [decide_eq_true rfl]
      · have hne : f b ≠ f a := fun heq => h.1 (heq ▸ List.mem_map_of_mem hmem)
        rw [decide_eq_false hne, ih h.2 hmem]

def calmEvent : SinkEvent Double := ⟨['a'], .counter, 0, .num false 0, ∅⟩

def calmRun : List (EventStream.Event 1 Double) :=
  [.record 0 calmEvent, .define 0, .observe 0, .send 0, .release 0, .recv, .closed, .flushDefs,
    .emitPoints, .snapshot]

def calmSidecar : DiagnosticsSidecar := ⟨1, 0, 0, ∅⟩

def calmMetric : Json := StreamFormat.metricEnvelope ⟨['a'], .counter, "default".toList⟩

def calmPoint : Json := .object [
  ("metric".toList, .string ['a']),
  ("type".toList, .string "Point".toList),
  ("data".toList, .object [
    ("time".toList, .string []),
    ("value".toList, serializeF64 (Double.toBits (.num false 0))),
    ("tags".toList, .object [])])]

/-- The export of either binary. -/
def calmExport : Json := .object [("metrics".toList, .object [])]

def calmText (v : Json) : Str := JsonText.value (fun _ => "0.0".toList) v

def calmTable : List Json := [calmExport, calmMetric, calmPoint, calmSidecar.toJson]

@[irreducible] def calmFromStr (text : Str) : Option Json :=
  calmTable.find? fun v => decide (calmText v = text)

theorem calmFromStr_text {v : Json} (h : v ∈ calmTable) : calmFromStr (calmText v) = some v := by
  have hnodup : (calmTable.map calmText).Nodup := by decide +kernel
  rw [calmFromStr]
  exact find?_of_nodup_map hnodup h

def calmFormat : HarnessFormat Double where
  toBits := Double.toBits
  formatRfc3339 _ := []
  floatText _ := "0.0".toList
  fromStr := calmFromStr
  ofBits := Double.ofBits
  pretty := calmText
  serdeError _ := []

def calmDetail : DetailFormat Double := ⟨fun _ => [], fun _ _ => [], id⟩

/-- Both streams are the one that the run leaves; upstream has no sidecar. -/
def calmFiles (s : EventStream 1 Double) : Files := fun path =>
  if path = ['s'] then .ok (calmText calmExport)
  else if path = ['r'] ∨ path = ['u'] then .ok (calmFormat.file s.output)
  else if path = sidecarPath ['r'] then .ok (calmText calmSidecar.toJson)
  else .error "no such file".toList

def calmRuns (s : EventStream 1 Double) : ScriptRuns Double where
  name := []
  exp := ⟨⟨.exact, .exact, ∅, ∅⟩, 0, none, none, none⟩
  upstream := ⟨['u'], ['s'], 0⟩
  k6rs := ⟨['r'], ['s'], 0⟩
  files := calmFiles s

theorem calmExp_nonNegative (s : EventStream 1 Double) :
    (calmRuns s).exp.toExpectations.NonNegative :=
  fun _ => ⟨trivial, trivial, trivial⟩

/-- What both adapters make of the export. -/
def calmAdapted : CanonicalRun Double := ⟨∅, 0, ∅, ∅, none⟩

theorem adapt_calm (s : EventStream 1 Double) {parse : Str → Except Str (CanonicalSummary Double)}
    {path : Str} {duration : Double} (h : parse (calmText calmExport) = .ok ⟨duration, ∅, .empty⟩) :
    adapt (calmFiles s) parse ⟨path, ['s'], 0⟩ = .ok calmAdapted := by
  have hread : readToString (calmFiles s) ['s'] = .ok (calmText calmExport) := by
    rw [readToString, calmFiles, if_pos rfl]
    rfl
  rw [adapt, hread, Except.ok_bind, h, Except.ok_bind]
  rfl

theorem parse_calm : K6rsSummary.parse calmFormat (calmText calmExport) = .ok ⟨zero, ∅, .empty⟩ ∧
    UpstreamSummary.parse calmFormat (calmText calmExport) = .ok ⟨zero, ∅, .empty⟩ := by
  have hreads : calmFormat.fromStr (calmText calmExport) = some calmExport :=
    calmFromStr_text List.mem_cons_self
  rw [K6rsSummary.parse, UpstreamSummary.parse, hreads]
  exact ⟨rfl, rfl⟩

theorem calm_leavesFiles {s : EventStream 1 Double} (hsidecar : s.sidecar = some calmSidecar)
    (houtput : ∀ line ∈ s.output, calmFormat.envelope line = calmMetric ∨
      calmFormat.envelope line = calmPoint) :
    LeavesFiles calmFormat (calmFiles s) ['r'] s calmSidecar := by
  have hstream : calmFiles s ['r'] = .ok (calmFormat.file s.output) := by
    rw [calmFiles, if_neg (by decide), if_pos (by decide)]
  have hbeside : calmFiles s (sidecarPath ['r']) = .ok (calmText calmSidecar.toJson) := by
    rw [calmFiles, if_neg (by decide), if_neg (by decide), if_pos rfl]
  have hfloat : JsonText.Printable "0.0".toList := JsonText.printable_of_all (by decide)
  refine ⟨hsidecar, hstream, hbeside, fun line hline => ⟨fun _ => ?_, ?_⟩, ?_⟩
  · exact hfloat
  · have hmem : calmFormat.envelope line ∈ calmTable := by
      rcases houtput line hline with h | h
      · rw [h]
        exact List.mem_cons_of_mem _ List.mem_cons_self
      · rw [h]
        exact List.mem_cons_of_mem _ (List.mem_cons_of_mem _ List.mem_cons_self)
    exact calmFromStr_text hmem
  · exact calmFromStr_text (List.mem_of_getLast? rfl)

theorem calm_passes {s : EventStream 1 Double}
    (hfiles : LeavesFiles calmFormat (calmFiles s) ['r'] s calmSidecar) :
    ∃ report, (calmRuns s).run calmFormat calmDetail = .ok report ∧ report.result = .pass := by
  have hupstream : readEventStreamAt calmFormat (calmFiles s) ['u'] =
      .ok (readEventStream calmFormat.toStreamFormat (calmFormat.file s.output)) := by
    have hfile : calmFiles s ['u'] = .ok (calmFormat.file s.output) := by
      rw [calmFiles, if_neg (by decide), if_pos (by decide)]
    rw [readEventStreamAt, readToString, hfile]
    rfl
  have hnone : readSidecarTolerant calmFormat (calmFiles s) ['u'] = .default := by
    have hfile : calmFiles s (sidecarPath ['u']) = .error "no such file".toList := by
      rw [calmFiles, if_neg (by decide), if_neg (by decide), if_neg (by decide)]
    rw [readSidecarTolerant, readSidecarInner, hfile]
  refine ScriptRuns.passes_iff.mpr ⟨calmAdapted, calmAdapted, _, _, _,
    ⟨adapt_calm s parse_calm.2, adapt_calm s parse_calm.1, hupstream, hfiles.readEventStreamAt_eq,
      hfiles.readSidecarRequired_eq, rfl, ?_, rfl, rfl, ?_⟩⟩
  · rw [show (calmRuns s).files = calmFiles s from rfl,
      show (calmRuns s).upstream.outJsonPath = ['u'] from rfl, hnone]
    rfl
  · exact diff_self calmDetail (calmExp_nonNegative s) _

theorem passes_accounts_calm : ∃ s : EventStream 1 Double, s.postings.log.length = 1 ∧
    (EventStream.points s.output).Perm s.postings.log ∧
      (calmRuns s).upstream.exitCode = (calmRuns s).exp.expectedExitCode ∧
      (calmRuns s).k6rs.exitCode = (calmRuns s).exp.expectedExitCode ∧
      ∃ stream, readEventStreamAt calmFormat (calmFiles s) ['u'] = .ok stream ∧
        ∀ name, (calmRuns s).exp.isKnownDrift name = false →
          (stream.metricDefs.contains name = true ↔ name ∈ s.recordedNames) ∧
          (∀ d, stream.metricDefs.find? name = some d → ∃ x ∈ s.postings.log,
            x.content.metricName = name ∧ d.kind = x.content.metricKind.tag ∧
              d.contains = classifyContains x.content.metricKind name) ∧
          (name ∈ s.recordedNames ∨ stream.sampleCounts.contains name = true →
            checkTolerance calmDetail "sample_count".toList
              (ofNat ((stream.sampleCounts.find? name).getD 0))
              (ofNat (s.postings.log.countP fun x => x.content.metricName = name))
              ((calmRuns s).exp.toleranceFor name).count = none) := by
  let contents : StreamLine 1 Double → MetricDef ⊕ SinkEvent Double := fun line =>
    match line with
    | .metric d => .inl d
    | .point x => .inr x.content
  have hexec : ∃ s, (eventStreamSystem 1 Double 1).AnyRun calmRun s ∧
      (s.postings.log.length = 1 ∧ ∃ d ∈ s.sidecar, (d.capacity = 1 ∧ d.peakOccupancy = 0) ∧
        d.total = 0 ∧ d.perMetric.entries.isEmpty = true) ∧
        s.output.map contents = [.inl ⟨['a'], .counter, "default".toList⟩, .inr calmEvent] :=
    StepSystem.exists_run_of_exec _ rfl (by decide +kernel)
  obtain ⟨s, hrun, ⟨hlog, hsome⟩, houtput⟩ := hexec
  have hsidecar : s.sidecar = some calmSidecar := by
    obtain ⟨⟨_, _, _, ⟨entries, _⟩⟩, hsidecar, ⟨rfl, rfl⟩, rfl, hempty⟩ := hsome
    obtain rfl : entries = [] := List.isEmpty_iff.mp hempty
    exact hsidecar
  have hfiles : LeavesFiles calmFormat (calmFiles s) ['r'] s calmSidecar := by
    refine calm_leavesFiles hsidecar fun line hline => ?_
    have hcontents : contents line = .inl ⟨['a'], .counter, "default".toList⟩ ∨
        contents line = .inr calmEvent := by
      have hmem := List.mem_map_of_mem (f := contents) hline
      simpa [houtput] using hmem
    cases line with
    | metric d =>
        rcases hcontents with h | h
        · exact .inl (congrArg StreamFormat.metricEnvelope (Sum.inl.inj h))
        · cases h
    | point x =>
        rcases hcontents with h | h
        · cases h
        · exact .inr (congrArg calmFormat.pointEnvelope (Sum.inr.inj h))
  exact ⟨s, hlog, passes_accounts hrun hfiles (calm_passes hfiles)⟩

end K6Rs
