import K6Rs.Library.Channel
import K6Rs.Library.StepSystem
import K6Rs.Library.Text

/-! Console delivery: producers put their lines into a bounded queue, a worker thread
writes them, and the shutdown waits for the worker. The events are the steps of the
producers, of the worker and of the shutdown, each one access to what they share. -/

namespace K6Rs

def CONSOLE_CAPACITY : ℕ := 1024

def MAX_MESSAGE_BYTES : ℕ := 16 * 1024

inductive ConsoleLevel where
  | log
  | warn
  | error
  deriving DecidableEq

namespace ConsoleLevel

def levelPrefix : ConsoleLevel → Str
  | .log => []
  | .warn => "WARN: ".toList
  | .error => "ERROR: ".toList

end ConsoleLevel

structure Record where
  level : ConsoleLevel
  message : Str
  deriving DecidableEq

namespace Record

/-- The line that `write_record` writes. -/
def line (r : Record) : Str := r.level.levelPrefix ++ r.message ++ ['\n']

/-- The record of an emit call, with whether its message was cut. -/
def ofEmit (level : ConsoleLevel) (message : Str) : Record × Bool :=
  if MAX_MESSAGE_BYTES < message.utf8Len then
    (⟨level, message.truncate (message.charBoundary MAX_MESSAGE_BYTES)⟩, true)
  else (⟨level, message⟩, false)

end Record

/-- Where a producer stands in `ConsoleSink::emit`. -/
inductive EmitPc where
  | idle
  /-- The call has begun and has not looked at the closed flag. -/
  | entered
  /-- The flag was not set. -/
  | open
  /-- The record will be counted as dropped. -/
  | refused
  deriving DecidableEq

abbrev Line (n : ℕ) : Type := Post (Fin n) Record

inductive ConsoleEntry (n : ℕ) where
  | record (r : Line n)
  | wake
  deriving DecidableEq

/-- Where the worker thread stands. -/
inductive WorkerPc (n : ℕ) where
  | top
  /-- The closed flag was set: `try_recv`. -/
  | polling
  /-- It was not: `recv`. -/
  | receiving
  | writing (r : Line n)
  /-- The loop has ended. -/
  | left
  /-- It has sent on `done_tx`. -/
  | signalled
  /-- The closure has returned and its receiver is dropped. -/
  | gone
  deriving DecidableEq

inductive ShutdownPc where
  | running
  /-- The closed flag is set. -/
  | closing
  | awaiting
  | joining
  | returned (drainTimedOut : Bool)
  deriving DecidableEq

structure Console (n : ℕ) where
  emitters : Fin n → EmitPc
  worker : WorkerPc n
  shutdown : ShutdownPc
  channel : Channel (ConsoleEntry n)
  closed : Bool
  dropped : ℕ
  truncated : ℕ
  writeErrors : ℕ
  /-- The calls, and which of them were put into the queue or counted as dropped. -/
  postings : Postings (Fin n) Record
  /-- What the worker took out of the queue, what of it was written, and what was not. -/
  received : List (Line n)
  written : List (Line n)
  failed : List (Line n)
  /-- What was in the queue when the receiver was dropped. -/
  lost : List (Line n)

namespace Console

variable {n : ℕ}

def new (capacity : ℕ) : Console n where
  emitters := fun _ => .idle
  worker := .top
  shutdown := .running
  channel := .new capacity
  closed := false
  dropped := 0
  truncated := 0
  writeErrors := 0
  postings := .new
  received := []
  written := []
  failed := []
  lost := []

inductive Event (n : ℕ) where
  | call (p : Fin n) (level : ConsoleLevel) (message : Str)
  | load (p : Fin n)
  | send (p : Fin n)
  | count (p : Fin n)
  | workerLoad
  | workerRecv
  | workerWrite (ok : Bool)
  | workerSignal
  | workerDrop
  | close
  | wake
  | done
  | join
  | timeout

def setEmitter (s : Console n) (p : Fin n) (pc : EmitPc) : Console n :=
  { s with emitters := Function.update s.emitters p pc }

/-- The records in a queue. -/
def records (queue : List (ConsoleEntry n)) : List (Line n) :=
  queue.filterMap fun
    | .record r => some r
    | .wake => none

/-- `tx.try_send`: it fails when the queue is full or the receiver is gone. -/
def trySend (s : Console n) (entry : ConsoleEntry n) : Option (Channel (ConsoleEntry n)) :=
  if s.worker = .gone then none else s.channel.trySend entry

/-- What the worker does with the event it received. -/
def takeEntry (s : Console n) : ConsoleEntry n → Console n
  | .record r => { s with worker := .writing r, received := s.received ++ [r] }
  | .wake => { s with worker := .top }

def step (s : Console n) : Event n → Option (Console n)
  | .call p level message =>
      if h : s.postings.pending p = none then
        let (record, truncated) := Record.ofEmit level message
        some { s.setEmitter p .entered with
          truncated := s.truncated + truncated.toNat
          postings := s.postings.post p record h }
      else none
  | .load p =>
      if s.emitters p = .entered then
        some (s.setEmitter p (if s.closed then .refused else .open))
      else none
  | .send p =>
      match h : s.postings.pending p with
      | some r =>
          if s.emitters p = .open then
            match s.trySend (.record r) with
            | some channel =>
                some { s.setEmitter p .idle with
                  channel
                  postings := s.postings.send p r h }
            | none => some (s.setEmitter p .refused)
          else none
      | none => none
  | .count p =>
      match h : s.postings.pending p with
      | some r =>
          if s.emitters p = .refused then
            some { s.setEmitter p .idle with
              dropped := s.dropped + 1
              postings := s.postings.refuse p r h }
          else none
      | none => none
  | .workerLoad =>
      match s.worker with
      | .top => some { s with worker := if s.closed then .polling else .receiving }
      | _ => none
  | .workerRecv =>
      match s.worker, s.channel.recv with
      | .polling, some (entry, channel) => some ({ s with channel }.takeEntry entry)
      | .polling, none => some { s with worker := .left }
      | .receiving, some (entry, channel) => some ({ s with channel }.takeEntry entry)
      -- `recv` waits: the writer's own sink keeps a sender alive.
      | _, _ => none
  | .workerWrite ok =>
      match s.worker with
      | .writing r =>
          if ok then some { s with worker := .top, written := s.written ++ [r] }
          else
            some { s with
              worker := .top
              writeErrors := s.writeErrors + 1
              failed := s.failed ++ [r] }
      | _ => none
  | .workerSignal =>
      match s.worker with
      | .left => some { s with worker := .signalled }
      | _ => none
  | .workerDrop =>
      match s.worker with
      | .signalled =>
          some { s with
            worker := .gone
            channel := s.channel.discard
            lost := s.lost ++ records s.channel.queue }
      | _ => none
  | .close =>
      match s.shutdown with
      | .running => some { s with shutdown := .closing, closed := true }
      | _ => none
  | .wake =>
      match s.shutdown with
      | .closing =>
          some { s with
            shutdown := .awaiting
            channel := (s.trySend .wake).getD s.channel }
      | _ => none
  | .done =>
      match s.shutdown with
      | .awaiting =>
          if s.worker = .signalled ∨ s.worker = .gone then some { s with shutdown := .joining }
          else none
      | _ => none
  | .join =>
      match s.shutdown with
      | .joining => if s.worker = .gone then some { s with shutdown := .returned false } else none
      | _ => none
  | .timeout =>
      match s.shutdown with
      | .awaiting => some { s with shutdown := .returned true }
      | _ => none

/-- The text the worker has written. -/
def output (s : Console n) : Str := s.written.flatMap fun r => r.content.line

/-- Every emit call and the shutdown have returned, and the drain did not time out. -/
structure Finished (s : Console n) : Prop where
  emitters : ∀ p, s.emitters p = .idle
  shutdown : s.shutdown = .returned false

instance (s : Console n) : Decidable s.Finished :=
  decidable_of_iff ((∀ p, s.emitters p = .idle) ∧ s.shutdown = .returned false)
    ⟨fun h => ⟨h.1, h.2⟩, fun h => ⟨h.emitters, h.shutdown⟩⟩

/-- Every emit call is accounted for exactly once, and the lines of one producer are
written in the order of its calls. -/
structure Accounted (s : Console n) : Prop where
  once : (s.written ++ s.failed ++ s.postings.refused).Perm s.postings.log
  failures : s.failed.length = s.writeErrors
  drops : s.postings.refused.length = s.dropped
  total : s.postings.log.length = s.written.length + s.writeErrors + s.dropped
  order : ∀ p, (Post.ofSender p s.written).Sublist (Post.ofSender p s.postings.log)

/-- The step puts a record into the queue after the worker has left its loop. -/
def Late (s : Console n) : Event n → Prop
  | .send p =>
      s.emitters p = .open ∧ (s.worker = .left ∨ s.worker = .signalled) ∧ ¬s.channel.Full
  | _ => False

end Console

/-- The console writer with a queue of the given capacity, which is not zero, and the
sinks of `n` producers. -/
def consoleSystem (n capacity : ℕ) : StepSystem (Console n) (Console.Event n) where
  init s := s = .new capacity
  step := Console.step

end K6Rs
