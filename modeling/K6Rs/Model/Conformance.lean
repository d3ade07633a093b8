import K6Rs.Library.Except
import K6Rs.Model.RunDiff
import K6Rs.Model.Summary

/-! The conformance harness: how it reads the files that the two binaries leave, what it finds in
them, and the report over all scripts. -/

namespace K6Rs

open FloatOps MetricSelector

/-- The parts of the libraries that the harness and the writers of its files call. -/
structure HarnessFormat (F : Type) extends StreamFormat F where
  ofBits : UInt64 → F
  /-- `serde_json::to_string_pretty`. -/
  pretty : Json → Str
  /-- The text of the error of a content that has not the wanted form. -/
  serdeError : Str → Str

/-- What a path reads as, or the text of the error. -/
abbrev Files := Str → Except Str Str

def readToString (files : Files) (path : Str) : Except Str Str :=
  (files path).mapError fun e => "reading ".toList ++ path ++ ": ".toList ++ e

/-! ## Typed readers -/

/-- A field that has a default. -/
def defaultField {α : Type} (default : α) (read : Json → Option α) : Option Json → Option α
  | none => some default
  | some v => read v

def readMap {α : Type} (read : Json → Option α) (v : Json) : Option (SortedMap Str α) := do
  let members ← v.asObject
  let entries ← members.mapM fun member => (read member.2).map fun x => (member.1, x)
  return .ofList entries

def readF64 {F : Type} [FloatOps F] (ofBits : UInt64 → F) : Json → Option F
  | .number (.posInt n) => some (ofNat n)
  | .number (.negInt n) => some (ofRat (-(n + 1 : ℕ)))
  | .number (.float bits) => some (ofBits bits)
  | _ => none

/-! ## Sidecars -/

structure SideReliability where
  capacity : ℕ
  peakOccupancy : ℕ
  dropsTotal : ℕ
  dropsPerMetric : SortedMap Str ℕ
  error : Option Str

namespace SideReliability

def default : SideReliability := ⟨0, 0, 0, ∅, none⟩

def isUnreliable (side : SideReliability) : Bool := 0 < side.dropsTotal || side.error.isSome

end SideReliability

structure Reliability where
  upstream : SideReliability
  k6rs : SideReliability

def Reliability.isUnreliable (rel : Reliability) : Bool :=
  rel.upstream.isUnreliable || rel.k6rs.isUnreliable

def DiagnosticsSidecar.toJson (sidecar : DiagnosticsSidecar) : Json :=
  .object [
    ("capacity".toList, jsonU64 sidecar.capacity),
    ("peak_occupancy".toList, jsonU64 sidecar.peakOccupancy),
    ("dropped_samples".toList, .object [
      ("total".toList, jsonU64 sidecar.total),
      ("per_metric".toList, .object (sidecar.perMetric.entries.map fun e => (e.1, jsonU64 e.2)))])]

structure WireDrops where
  total : ℕ
  perMetric : SortedMap Str ℕ

structure WireSidecar where
  capacity : ℕ
  peakOccupancy : ℕ
  droppedSamples : WireDrops

def WireDrops.ofJson (v : Json) : Option WireDrops := do
  let fields := ["total".toList, "per_metric".toList]
  let total ← v.structField fields "total".toList
  let perMetric ← v.structField fields "per_metric".toList
  return {
    total := ← defaultField 0 Json.asU64 total
    perMetric := ← defaultField ∅ (readMap Json.asU64) perMetric }

def WireSidecar.ofJson (v : Json) : Option WireSidecar := do
  let fields := ["capacity".toList, "peak_occupancy".toList, "dropped_samples".toList]
  let capacity ← v.structField fields "capacity".toList
  let peakOccupancy ← v.structField fields "peak_occupancy".toList
  let droppedSamples ← v.structField fields "dropped_samples".toList
  return {
    capacity := ← defaultField 0 Json.asU64 capacity
    peakOccupancy := ← defaultField 0 Json.asU64 peakOccupancy
    droppedSamples := ← droppedSamples.bind WireDrops.ofJson }

section

variable {F : Type} (format : HarnessFormat F) (files : Files)

/-- The sidecar stands beside the stream, under its path with a suffix. -/
def sidecarPath (streamPath : Str) : Str := streamPath ++ ".diagnostics.json".toList

def readSidecarInner (streamPath : Str) : Except Str SideReliability :=
  let path := sidecarPath streamPath
  match files path with
  | .error e => .error ("reading sidecar ".toList ++ path ++ ": ".toList ++ e)
  | .ok content =>
      match (format.fromStr content).bind WireSidecar.ofJson with
      | none =>
          .error ("parsing sidecar ".toList ++ path ++ ": ".toList ++ format.serdeError content)
      | some parsed =>
          .ok {
            capacity := parsed.capacity
            peakOccupancy := parsed.peakOccupancy
            dropsTotal := parsed.droppedSamples.total
            dropsPerMetric := parsed.droppedSamples.perMetric
            error := none }

def readSidecarTolerant (streamPath : Str) : SideReliability :=
  match readSidecarInner format files streamPath with
  | .ok side => side
  | .error _ => .default

def readSidecarRequired (streamPath : Str) : Except Str SideReliability :=
  readSidecarInner format files streamPath

def readEventStreamAt (path : Str) : Except Str CanonicalEventStream :=
  (readToString files path).map (readEventStream format.toStreamFormat)

structure SinkArtifacts where
  upstreamStream : Option CanonicalEventStream
  k6rsStream : Option CanonicalEventStream
  reliability : Reliability
  preDiffFindings : List DiffFinding

/-- The finding of what could not be read. -/
def loadFinding {α : Type} (kind : FindingKind) (selector : Str) : Except Str α → List DiffFinding
  | .ok _ => []
  | .error e => [⟨kind, selector, e⟩]

/-- Upstream writes no sidecar; that of k6-rs has to be there. -/
def loadSinkArtifacts (upstreamPath k6rsPath : Str) : SinkArtifacts :=
  let upstreamStream := readEventStreamAt format files upstreamPath
  let k6rsStream := readEventStreamAt format files k6rsPath
  let k6rsReliability := readSidecarRequired format files k6rsPath
  { upstreamStream := upstreamStream.toOption
    k6rsStream := k6rsStream.toOption
    reliability := {
      upstream := readSidecarTolerant format files upstreamPath
      k6rs := match k6rsReliability with
        | .ok side => side
        | .error e => { SideReliability.default with error := some e } }
    preDiffFindings :=
      loadFinding .streamFileError "<upstream-stream>".toList upstreamStream ++
        loadFinding .streamFileError "<k6rs-stream>".toList k6rsStream ++
        loadFinding .sidecarUnreadable "<k6rs-sidecar>".toList k6rsReliability }

end

/-! ## The export of the summary -/

section

variable {F : Type} [FloatOps F]

namespace SummaryData

variable (toBits : F → UInt64)

def metricJson (m : SummaryMetric F) : Json :=
  .object [
    ("type".toList, .string m.metricType),
    ("contains".toList, .string m.contains),
    ("values".toList,
      .object (m.values.entries.map fun e => (e.1, serializeF64 (toBits e.2))))]

def toJson (data : SummaryData F) : Json :=
  .object [
    ("metrics".toList, .object (data.metrics.entries.map fun e => (e.1, metricJson toBits e.2))),
    ("root_group".toList, data.rootGroup.toJson),
    ("state".toList, .object [
      ("is_std_out_tty".toList, .bool data.state.isStdOutTty),
      ("test_run_duration_ms".toList, serializeF64 (toBits data.state.testRunDurationMs))])]

/-- The file that `--summary-export` writes. -/
def summaryExport (format : HarnessFormat F) (data : SummaryData F) : Str :=
  format.pretty (data.toJson format.toBits)

end SummaryData

/-! ## Adapters -/

/-- What the adapters make of an export. -/
structure CanonicalSummary (F : Type) where
  durationMs : F
  metrics : SortedMap Str (CanonicalMetricKind F)
  maps : GroupMaps

def splitSelector (raw : Str) : MetricSelector :=
  match parse raw with
  | .ok s => s
  | .error _ => ⟨raw, ∅⟩

def collectRootGroup : Option Json → GroupMaps
  | none => .empty
  | some rootGroup => collectRootGroupTree rootGroup

/-- A metric stands under its selector; one without a kind is left out. -/
def addMetric {α : Type} (kind : α → Option (CanonicalMetricKind F))
    (out : SortedMap Str (CanonicalMetricKind F)) (entry : Str × α) :
    SortedMap Str (CanonicalMetricKind F) :=
  match kind entry.2 with
  | none => out
  | some k => out.insert (canonical (splitSelector entry.1)) k

def canonicalMetrics {α : Type} (kind : α → Option (CanonicalMetricKind F))
    (metrics : SortedMap Str α) : SortedMap Str (CanonicalMetricKind F) :=
  metrics.entries.foldl (addMetric kind) ∅

def valueOr (values : SortedMap Str F) (key : String) : F := (values.find? key.toList).getD zero

structure K6rsMetricEntry (F : Type) where
  metricType : Str
  values : SortedMap Str F

structure K6rsSummary (F : Type) where
  metrics : SortedMap Str (K6rsMetricEntry F)
  testRunDurationMs : F
  rootGroup : Option Json

namespace K6rsMetricEntry

def ofJson (ofBits : UInt64 → F) (v : Json) : Option (K6rsMetricEntry F) := do
  let fields := ["type".toList, "values".toList]
  let metricType ← v.structField fields "type".toList
  let values ← v.structField fields "values".toList
  return {
    metricType := ← metricType.bind Json.asStr
    values := ← defaultField ∅ (readMap (readF64 ofBits)) values }

def kind (entry : K6rsMetricEntry F) : Option (CanonicalMetricKind F) :=
  let get := valueOr entry.values
  if entry.metricType = "counter".toList then some (.counter (get "count") (get "rate"))
  else if entry.metricType = "trend".toList then
    some (.trend {
      count := (entry.values.find? "count".toList).map toU64
      avg := get "avg"
      min := get "min"
      med := get "med"
      max := get "max"
      p90 := get "p(90)"
      p95 := get "p(95)"
      p99 := entry.values.find? "p(99)".toList })
  else if entry.metricType = "rate".toList then
    some (.rate (get "rate") (toU64 (get "passes")) (toU64 (get "fails")))
  else if entry.metricType = "gauge".toList then
    some (.gauge (get "value") (get "min") (get "max"))
  else none

end K6rsMetricEntry

namespace K6rsSummary

def durationOfJson (ofBits : UInt64 → F) (v : Json) : Option F := do
  let duration ← v.structField ["test_run_duration_ms".toList] "test_run_duration_ms".toList
  defaultField zero (readF64 ofBits) duration

def ofJson (ofBits : UInt64 → F) (v : Json) : Option (K6rsSummary F) := do
  let fields := ["metrics".toList, "state".toList, "root_group".toList]
  let metrics ← v.structField fields "metrics".toList
  let state ← v.structField fields "state".toList
  let rootGroup ← v.structField fields "root_group".toList
  return {
    metrics := ← metrics.bind (readMap (K6rsMetricEntry.ofJson ofBits))
    testRunDurationMs := ← defaultField zero (durationOfJson ofBits) state
    rootGroup := ← optionalField some rootGroup }

/-- `k6rs::parse`. -/
def parse (format : HarnessFormat F) (raw : Str) : Except Str (CanonicalSummary F) :=
  match (format.fromStr raw).bind (ofJson format.ofBits) with
  | none => .error "parsing k6-rs summary export".toList
  | some parsed =>
      .ok {
        durationMs := parsed.testRunDurationMs
        metrics := canonicalMetrics K6rsMetricEntry.kind parsed.metrics
        maps := collectRootGroup parsed.rootGroup }

end K6rsSummary

structure UpstreamSummary where
  metrics : SortedMap Str (SortedMap Str Json)
  rootGroup : Option Json

namespace UpstreamSummary

def ofJson (v : Json) : Option UpstreamSummary := do
  let fields := ["metrics".toList, "root_group".toList]
  let metrics ← v.structField fields "metrics".toList
  let rootGroup ← v.structField fields "root_group".toList
  return {
    metrics := ← defaultField ∅ (readMap (readMap some)) metrics
    rootGroup := ← optionalField some rootGroup }

/-- The members of an entry that are numbers. -/
def numeric (ofBits : UInt64 → F) (entry : SortedMap Str Json) : SortedMap Str F :=
  .ofList (entry.entries.filterMap fun e => (readF64 ofBits e.2).map fun x => (e.1, x))

/-- Upstream tells no kinds; they are read off the names of the values. -/
def inferKind (values : SortedMap Str F) : Option (CanonicalMetricKind F) :=
  let has (key : String) : Bool := values.contains key.toList
  let get := valueOr values
  if has "passes" && has "fails" then
    some (.rate (get "value") (toU64 (get "passes")) (toU64 (get "fails")))
  else if has "count" && has "rate" && !has "passes" then
    some (.counter (get "count") (get "rate"))
  else if has "avg" && has "p(90)" then
    some (.trend {
      count := none
      avg := get "avg"
      min := get "min"
      med := get "med"
      max := get "max"
      p90 := get "p(90)"
      p95 := get "p(95)"
      p99 := values.find? "p(99)".toList })
  else if has "value" && has "min" && has "max" && !has "avg" then
    some (.gauge (get "value") (get "min") (get "max"))
  else none

def parse (format : HarnessFormat F) (raw : Str) : Except Str (CanonicalSummary F) :=
  match (format.fromStr raw).bind ofJson with
  | none => .error "decoding upstream summary JSON".toList
  | some parsed =>
      .ok {
        durationMs := zero
        metrics := canonicalMetrics (fun entry => inferKind (numeric format.ofBits entry))
          parsed.metrics
        maps := collectRootGroup parsed.rootGroup }

end UpstreamSummary

structure RunArtifacts where
  outJsonPath : Str
  summaryExportPath : Str
  exitCode : ℤ

/-- `Adapter::adapt`, with the parser of one side. -/
def adapt (files : Files) (parse : Str → Except Str (CanonicalSummary F))
    (artifacts : RunArtifacts) :
    Except Str (CanonicalRun F) := do
  let raw ← readToString files artifacts.summaryExportPath
  let summary ← parse raw
  return {
    metrics := summary.metrics
    exitCode := artifacts.exitCode
    checks := summary.maps.checks
    groups := summary.maps.groups
    eventStream := none }

/-! ## Results -/

inductive ScriptResult where
  | pass
  | fail
  | unreliable
  deriving DecidableEq

def ScriptResult.fromFindingsAndReliability (findings : List DiffFinding)
    (reliability : Option Reliability) : ScriptResult :=
  let unreliable := (reliability.map Reliability.isUnreliable).getD false
  if unreliable then .unreliable else if findings.isEmpty then .pass else .fail

structure ScriptReport where
  name : Str
  findings : List DiffFinding
  reliability : Option Reliability

def ScriptReport.result (report : ScriptReport) : ScriptResult :=
  .fromFindingsAndReliability report.findings report.reliability

def findingTag : FindingKind → Str
  | .exitCode => "exit".toList
  | .missingMetric => "missing".toList
  | .drift => "drift".toList
  | .kindMismatch => "kind".toList
  | .missingCheck => "check-missing".toList
  | .checkCountMismatch => "check-counts".toList
  | .checkIdMismatch => "check-id".toList
  | .missingGroup => "group-missing".toList
  | .groupIdMismatch => "group-id".toList
  | .missingMetricDef => "stream-missing-def".toList
  | .metricKindMismatch => "stream-kind".toList
  | .metricContainsMismatch => "stream-contains".toList
  | .sampleCountMismatch => "stream-count".toList
  | .streamFileError => "stream-file-error".toList
  | .sidecarUnreadable => "sidecar-unreadable".toList

structure JsonSideReliability where
  capacity : ℕ
  peakOccupancy : ℕ
  dropsTotal : ℕ
  dropsPerMetric : SortedMap Str ℕ

def JsonSideReliability.ofSide (side : SideReliability) : JsonSideReliability :=
  ⟨side.capacity, side.peakOccupancy, side.dropsTotal, side.dropsPerMetric⟩

structure JsonFindingEntry where
  kind : Str
  selector : Str
  detail : Str

structure JsonScriptReport where
  name : Str
  status : ScriptResult
  reliability : Option (JsonSideReliability × JsonSideReliability)
  findings : List JsonFindingEntry

structure JsonReport where
  overallStatus : ScriptResult
  scripts : List JsonScriptReport

/-- Unreliable dominates fail, and fail dominates pass. -/
def dominate : ScriptResult → ScriptResult → ScriptResult
  | .unreliable, _ => .unreliable
  | _, .unreliable => .unreliable
  | .fail, _ => .fail
  | _, .fail => .fail
  | .pass, .pass => .pass

def buildJsonReport (reports : List ScriptReport) : JsonReport :=
  let scripts := reports.map fun r => {
    name := r.name
    status := r.result
    reliability := r.reliability.map fun rel => (.ofSide rel.upstream, .ofSide rel.k6rs)
    findings := r.findings.map fun f => ⟨findingTag f.kind, f.selector, f.detail⟩ }
  { overallStatus := (scripts.map JsonScriptReport.status).foldl dominate .pass, scripts }

/-- `report::print`, up to the lines: whether every script passed. -/
def printReports (reports : List ScriptReport) : Bool :=
  reports.foldl (fun allClean r => if r.result ≠ .pass then false else allClean) true

/-! ## The runner -/

variable [FloatParse F]

/-- The finding of an exit code that is not the expected one. -/
def exitFinding (selector binary : String) (exitCode expected : ℤ) : List DiffFinding :=
  if exitCode ≠ expected then
    [⟨.exitCode, selector.toList,
      binary.toList ++ " exit ".toList ++ intText exitCode ++ " != expected ".toList ++
        intText expected⟩]
  else []

/-- `run_one`, after the two binaries have run. -/
def runOne (format : HarnessFormat F) (text : DetailFormat F) (files : Files) (name : Str)
    (exp : ScriptExpectations F) (upstream k6rs : RunArtifacts) : Except Str ScriptReport := do
  let left ← adapt files (UpstreamSummary.parse format) upstream
  let right ← adapt files (K6rsSummary.parse format) k6rs
  let artifacts := loadSinkArtifacts format files upstream.outJsonPath k6rs.outJsonPath
  let left := { left with eventStream := artifacts.upstreamStream }
  let right := { right with eventStream := artifacts.k6rsStream }
  return {
    name
    findings := artifacts.preDiffFindings ++ diff text left right exp.toExpectations ++
      exitFinding "<upstream>" "upstream" left.exitCode exp.expectedExitCode ++
      exitFinding "<k6rs>" "k6-rs" right.exitCode exp.expectedExitCode
    reliability := some artifacts.reliability }

/-- `run`, from the scripts that were discovered: the exit status of the harness, and the report
that is written when a path for it is given. The first script that cannot be compared ends the
harness. -/
def runHarness (scripts : List (Except Str ScriptReport))
    (writeReport : JsonReport → Except Str Unit) :
    ℕ :=
  if scripts.isEmpty then 1
  else
    match scripts.mapM id with
    | .error _ => 1
    | .ok reports =>
        match writeReport (buildJsonReport reports) with
        | .error _ => 1
        | .ok () => if printReports reports then 0 else 1

end

end K6Rs
