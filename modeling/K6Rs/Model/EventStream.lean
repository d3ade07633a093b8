import K6Rs.Library.Channel
import K6Rs.Library.KeyMap
import K6Rs.Library.StepSystem
import K6Rs.Model.Selector

/-! The event-stream output: producers record samples through a bounded channel and a
table of metric definitions of its own, and a writer task emits both. The writer stops
when every sender is dropped; its writes succeed. -/

namespace K6Rs

inductive EventStream.MetricKind where
  | counter
  | gauge
  | rate
  | trend
  deriving DecidableEq

/-- `MetricKind::as_str`. -/
def EventStream.MetricKind.asStr : EventStream.MetricKind → Str
  | .counter => "counter".toList
  | .gauge => "gauge".toList
  | .rate => "rate".toList
  | .trend => "trend".toList

def classifyContains (metricKind : EventStream.MetricKind) (metricName : Str) : Str :=
  let startsWith (start : String) : Bool := start.toList.isPrefixOf metricName
  if metricName = "data_sent".toList ∨ metricName = "data_received".toList ∨
      startsWith "ws_msgs_" then
    if startsWith "ws_msgs_" then "default".toList else "data".toList
  else if metricKind = .trend ∧
      (startsWith "http_req" ∨ (Str.findText "duration".toList metricName).isSome ∨
        startsWith "grpc_req" ∨ startsWith "ws_connecting" ∨ startsWith "ws_ping") then
    "time".toList
  else "default".toList

/-- A sample; its value is of type `F` and its time counts nanoseconds. -/
structure SinkEvent (F : Type) where
  metricName : Str
  metricKind : EventStream.MetricKind
  time : ℤ
  value : F
  tags : TagMap
  deriving DecidableEq

structure MetricDef where
  name : Str
  kind : EventStream.MetricKind
  contains : Str
  deriving DecidableEq

structure DefState where
  seen : List Str
  queue : List MetricDef

namespace DefState

def default : DefState := ⟨[], []⟩

/-- The first part of `try_record`, under the lock. -/
def define {F : Type} (d : DefState) (ev : SinkEvent F) : DefState :=
  if ev.metricName ∈ d.seen then d
  else
    { seen := d.seen ++ [ev.metricName]
      queue := d.queue ++
        [⟨ev.metricName, ev.metricKind, classifyContains ev.metricKind ev.metricName⟩] }

end DefState

structure DiagnosticsSidecar where
  capacity : ℕ
  peakOccupancy : ℕ
  total : ℕ
  perMetric : KeyMap Str ℕ

/-- The drop counters with the occupancy that was seen. -/
structure DropState where
  total : ℕ
  perMetric : KeyMap Str ℕ
  peakOccupancy : ℕ
  capacity : ℕ

namespace DropState

def new (capacity : ℕ) : DropState := ⟨0, ∅, 0, capacity⟩

def recordDrop (d : DropState) (metricName : Str) : DropState :=
  { d with
    total := d.total + 1
    perMetric := d.perMetric.upsert metricName fun v => v.getD 0 + 1 }

def observeOccupancy (d : DropState) (occupancy : ℕ) : DropState :=
  { d with peakOccupancy := max d.peakOccupancy occupancy }

def snapshot (d : DropState) : DiagnosticsSidecar :=
  ⟨d.capacity, d.peakOccupancy, d.total, d.perMetric⟩

end DropState

/-- Where a producer stands in `try_record`. -/
inductive RecordPc where
  | idle
  | entered
  /-- The definition is queued, or was before. -/
  | defined
  /-- The occupancy is observed. -/
  | observed
  /-- The channel was full; the drop will be counted. -/
  | full
  deriving DecidableEq

abbrev StreamSample (n : ℕ) (F : Type) : Type := Post (Fin n) (SinkEvent F)

/-- A line of the stream: a `Metric` or a `Point` envelope. -/
inductive StreamLine (n : ℕ) (F : Type) where
  | metric (d : MetricDef)
  | point (x : StreamSample n F)

/-- Where the writer stands; `closed` is its `channel_closed`. -/
inductive WriterPc (n : ℕ) (F : Type) where
  | accumulating (batch : List (StreamSample n F))
  | flushing (batch : List (StreamSample n F)) (closed : Bool)
  | emitting (batch : List (StreamSample n F)) (closed : Bool)
  /-- The loop has ended. -/
  | finishing
  | done
  deriving DecidableEq

def BATCH_LIMIT : ℕ := 8192

structure EventStream (n : ℕ) (F : Type) [DecidableEq F] where
  producers : Fin n → RecordPc
  /-- Whether the producer still holds its sink. -/
  senders : Fin n → Bool
  channel : Channel (StreamSample n F)
  defState : DefState
  dropState : DropState
  writer : WriterPc n F
  output : List (StreamLine n F)
  sidecar : Option DiagnosticsSidecar
  /-- The recorded events, and which of them were sent or refused. -/
  postings : Postings (Fin n) (SinkEvent F)

namespace EventStream

variable {n : ℕ} {F : Type} [DecidableEq F]

def new (capacity : ℕ) : EventStream n F where
  producers := fun _ => .idle
  senders := fun _ => true
  channel := .new capacity
  defState := .default
  dropState := .new capacity
  writer := .accumulating []
  output := []
  sidecar := none
  postings := .new

inductive Event (n : ℕ) (F : Type) where
  | record (p : Fin n) (ev : SinkEvent F)
  | define (p : Fin n)
  | observe (p : Fin n)
  | send (p : Fin n)
  | countDrop (p : Fin n)
  /-- The producer drops its sink. -/
  | release (p : Fin n)
  | recv
  /-- The window has expired or the batch is full. -/
  | expire
  /-- `recv` answers that the channel is closed and drained. -/
  | closed
  | flushDefs
  | emitPoints
  | snapshot

def setProducer (s : EventStream n F) (p : Fin n) (pc : RecordPc) : EventStream n F :=
  { s with producers := Function.update s.producers p pc }

def step (s : EventStream n F) : Event n F → Option (EventStream n F)
  | .record p ev =>
      if h : s.postings.pending p = none then
        if s.senders p then
          some { s.setProducer p .entered with postings := s.postings.post p ev h }
        else none
      else none
  | .define p =>
      match s.postings.pending p with
      | some x =>
          if s.producers p = .entered then
            some { s.setProducer p .defined with defState := s.defState.define x.content }
          else none
      | none => none
  | .observe p =>
      if s.producers p = .defined then
        some { s.setProducer p .observed with
          dropState := s.dropState.observeOccupancy s.channel.queue.length }
      else none
  | .send p =>
      match h : s.postings.pending p with
      | some x =>
          if s.producers p = .observed then
            match s.writer, s.channel.trySend x with
            -- The receiver is dropped with the writer: the event is dropped silently.
            | .done, _ =>
                some { s.setProducer p .idle with postings := s.postings.refuse p x h }
            | _, some channel =>
                some { s.setProducer p .idle with channel, postings := s.postings.send p x h }
            | _, none => some (s.setProducer p .full)
          else none
      | none => none
  | .countDrop p =>
      match h : s.postings.pending p with
      | some x =>
          if s.producers p = .full then
            some { s.setProducer p .idle with
              dropState := s.dropState.recordDrop x.content.metricName
              postings := s.postings.refuse p x h }
          else none
      | none => none
  | .release p =>
      if s.producers p = .idle then
        some { s with senders := Function.update s.senders p false }
      else none
  | .recv =>
      match s.writer, s.channel.recv with
      | .accumulating batch, some (x, channel) =>
          if batch.length < BATCH_LIMIT then
            some { s with channel, writer := .accumulating (batch ++ [x]) }
          else none
      | _, _ => none
  | .expire =>
      match s.writer with
      | .accumulating batch => some { s with writer := .flushing batch false }
      | _ => none
  | .closed =>
      match s.writer with
      | .accumulating batch =>
          if batch.length < BATCH_LIMIT ∧ s.channel.queue = [] ∧ ∀ p, s.senders p = false then
            some { s with writer := .flushing batch true }
          else none
      | _ => none
  | .flushDefs =>
      match s.writer with
      | .flushing batch closed =>
          some { s with
            writer := .emitting batch closed
            output := s.output ++ s.defState.queue.map .metric
            defState := { s.defState with queue := [] } }
      | _ => none
  | .emitPoints =>
      match s.writer with
      | .emitting batch closed =>
          some { s with
            writer := if closed then .finishing else .accumulating []
            output := s.output ++ batch.map .point }
      | _ => none
  | .snapshot =>
      match s.writer with
      | .finishing => some { s with writer := .done, sidecar := some s.dropState.snapshot }
      | _ => none

/-- The points of a stream. -/
def points (output : List (StreamLine n F)) : List (StreamSample n F) :=
  output.filterMap fun
    | .metric _ => none
    | .point x => some x

/-- The names that a stream defines. -/
def defined (output : List (StreamLine n F)) : List Str :=
  output.filterMap fun
    | .metric d => some d.name
    | .point _ => none

/-- The recorded names. -/
def recordedNames (s : EventStream n F) : List Str :=
  s.postings.log.map fun x => x.content.metricName

/-- Every recorded event is written exactly once, in the order of its producer, or counted
exactly once as a drop, and the drops of the metrics add up to their total. -/
structure Delivered (s : EventStream n F) (sidecar : DiagnosticsSidecar) : Prop where
  once : (points s.output ++ s.postings.refused).Perm s.postings.log
  order : ∀ p, (Post.ofSender p (points s.output)).Sublist (Post.ofSender p s.postings.log)
  drops : sidecar.total = s.postings.refused.length
  metricDrops : ∀ name, (sidecar.perMetric.find? name).getD 0 =
    s.postings.refused.countP fun x => x.content.metricName = name
  balance : (points s.output).length + sidecar.total = s.postings.log.length
  sum : sidecar.perMetric.total (fun _ => true) id = sidecar.total

/-- A stream defines each of the names exactly once, nothing else, and each of them before
its first point. -/
structure WellDefined (output : List (StreamLine n F)) (names : List Str) : Prop where
  once : ∀ name, (defined output).count name = if name ∈ names then 1 else 0
  before : ∀ front x rest, output = front ++ .point x :: rest →
    x.content.metricName ∈ defined front

end EventStream

/-- The event stream with a channel of the given capacity, which is not zero, and `n`
producers. -/
def eventStreamSystem (n : ℕ) (F : Type) [DecidableEq F] (capacity : ℕ) :
    StepSystem (EventStream n F) (EventStream.Event n F) where
  init s := s = .new capacity
  step := EventStream.step

end K6Rs
