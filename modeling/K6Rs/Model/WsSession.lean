import K6Rs.Library.StepSystem
import K6Rs.Library.Text

/-! A `ws.connect` session of a coroutine VU: the loop of the shim, the handlers it runs, and
the task that writes to the socket. All of them share a thread, so the task takes its steps
while the coroutine has yielded. The peer keeps reading: a write fails only after the peer
has closed. -/

namespace K6Rs

inductive WsCommand where
  | send (text : Str)
  | ping
  | close
  deriving DecidableEq

inductive WsEvent where
  | message
  | binaryMessage
  | ping
  | pong
  | close
  | error
  | timeout
  deriving DecidableEq

/-- Where `ws.connect` stands once the socket is open. -/
inductive WsPc where
  | callback
  | openHandlers
  | loop
  /-- The timeouts and intervals that are due. -/
  | timers
  /-- In `__ws_recv`. -/
  | receiving
  /-- The handlers of an event; those of an error close the session after them. -/
  | dispatching (error : Bool)
  | closeHandlers
  | left
  /-- A handler has thrown; the session stays, and the script may still use its socket. -/
  | abandoned
  /-- The VU is gone, and its sessions with it. -/
  | unwound
  deriving DecidableEq

inductive WriteTask where
  | running
  /-- It has left its loop. -/
  | ended
  | aborted
  deriving DecidableEq

structure WsSession where
  pc : WsPc
  /-- The coroutine has yielded. -/
  yielded : Bool
  closed : Bool
  /-- The commands that the task has not received yet. -/
  commands : List WsCommand
  /-- The command whose write is awaited. -/
  writing : Option WsCommand
  task : WriteTask
  written : List WsCommand
  /-- The read task has met a close frame or an error. -/
  peerClosed : Bool
  /-- The messages that `socket.send` has accepted. -/
  accepted : List Str

namespace WsSession

/-- The session when the callback begins. -/
def new : WsSession where
  pc := .callback
  yielded := false
  closed := false
  commands := []
  writing := none
  task := .running
  written := []
  peerClosed := false
  accepted := []

/-- The script runs, in a handler or after one has thrown. -/
def inScript (s : WsSession) : Bool :=
  match s.pc with
  | .callback | .openHandlers | .timers | .dispatching _ | .closeHandlers | .abandoned => true
  | _ => false

inductive Event where
  | send (text : Str)
  | ping
  | close
  /-- The script awaits something else. -/
  | yield
  | resume
  | throw
  /-- The shim goes on after a handler, or round its loop. -/
  | next
  | receive (e : WsEvent)
  | peerCloses
  /-- The write task receives a command. -/
  | take
  | wrote
  | writeFails
  /-- The VU is dropped. -/
  | unwind

/-- `socket.send`, `socket.ping` and `socket.close`. -/
def enqueue (s : WsSession) (c : WsCommand) : WsSession :=
  if s.closed then s
  else
    { s with
      commands := s.commands ++ [c]
      closed := decide (c = .close)
      accepted := match c with
        | .send text => s.accepted ++ [text]
        | _ => s.accepted }

/-- The drop of the session aborts the write task, where it still runs. -/
def tearDown (s : WsSession) (pc : WsPc) : WsSession :=
  { s with pc, task := if s.task = .running then .aborted else s.task }

def next (s : WsSession) : Option WsSession :=
  match s.pc with
  | .callback => some { s with pc := .openHandlers }
  | .openHandlers => some { s with pc := .loop }
  | .loop => some { s with pc := if s.closed then .closeHandlers else .timers }
  | .timers =>
      some (if s.closed then { s with pc := .closeHandlers }
        else { s with pc := .receiving, yielded := true })
  | .dispatching error => some { s with pc := .loop, closed := s.closed || error }
  -- `__ws_cleanup`.
  | .closeHandlers => some (s.tearDown .left)
  | _ => none

def receive (s : WsSession) (e : WsEvent) : Option WsSession :=
  let s := { s with yielded := false }
  match e with
  | .timeout => some { s with pc := .loop }
  | .close => if s.peerClosed then some { s with pc := .loop, closed := true } else none
  | .error => if s.peerClosed then some { s with pc := .dispatching true } else none
  | _ => some { s with pc := .dispatching false }

def step (s : WsSession) : Event → Option WsSession
  | .send text => if s.inScript && !s.yielded then some (s.enqueue (.send text)) else none
  | .ping => if s.inScript && !s.yielded then some (s.enqueue .ping) else none
  | .close => if s.inScript && !s.yielded then some (s.enqueue .close) else none
  | .yield => if s.inScript && !s.yielded then some { s with yielded := true } else none
  | .resume => if s.inScript && s.yielded then some { s with yielded := false } else none
  | .throw => if s.inScript && !s.yielded then some { s with pc := .abandoned } else none
  | .next => if s.yielded then none else s.next
  | .receive e => if s.pc = .receiving then s.receive e else none
  | .peerCloses => if s.yielded then some { s with peerClosed := true } else none
  | .take =>
      if s.yielded && decide (s.task = .running) && s.writing.isNone then
        match s.commands with
        | [] => none
        | c :: cs => some { s with commands := cs, writing := some c }
      else none
  | .wrote =>
      if s.yielded && decide (s.task = .running) then
        s.writing.map fun c =>
          { s with
            writing := none
            written := s.written ++ [c]
            task := if c = .close then .ended else .running }
      else none
  | .writeFails =>
      if s.yielded && decide (s.task = .running) && s.writing.isSome && s.peerClosed then
        some { s with task := .ended }
      else none
  | .unwind =>
      if s.yielded || decide (s.pc = .abandoned) then
        some { s.tearDown .unwound with yielded := false }
      else none

end WsSession

def wsSystem : StepSystem WsSession WsSession.Event where
  init s := s = .new
  step := WsSession.step

end K6Rs
