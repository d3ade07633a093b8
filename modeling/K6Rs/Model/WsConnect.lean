import K6Rs.Model.WsSession

/-! `ws.connect` with the functions of the script that it calls: the handlers in their lists, the
timeouts and the intervals, and the registry that holds the session. -/

namespace K6Rs

/-- The names that `socket.on` is given. -/
inductive SocketEvent where
  | open
  | message
  | binaryMessage
  | ping
  | pong
  | error
  | close
  | other
  deriving DecidableEq

/-- What a function of the script was given for. -/
inductive CallSite where
  | callback
  | handler (event : SocketEvent)
  | timeout
  | interval
  deriving DecidableEq

structure WsCall where
  site : CallSite
  fn : ℕ
  deriving DecidableEq

structure WsTimeout where
  fn : ℕ
  due : ℤ
  fired : Bool

structure WsInterval where
  fn : ℕ
  ms : ℤ
  next : ℤ

/-- A loop of the shim over functions of the script, with its index. -/
inductive ShimLoop where
  | handlers (event : SocketEvent) (i : ℕ)
  | timeouts (i : ℕ)
  | intervals (i : ℕ)
  deriving DecidableEq

def ShimLoop.succ : ShimLoop → ShimLoop
  | .handlers event i => .handlers event (i + 1)
  | .timeouts i => .timeouts (i + 1)
  | .intervals i => .intervals (i + 1)

inductive ConnectPc where
  /-- In `__ws_open`. -/
  | opening
  | callback
  /-- Before the test of a loop. -/
  | atLoop (loop : ShimLoop)
  /-- In the function that the loop has called. -/
  | inside (loop : ShimLoop)
  /-- Before `while (!closed)`. -/
  | top
  /-- In `__ws_recv`. -/
  | receiving
  | returned
  | thrown
  deriving DecidableEq

structure WsConnect where
  pc : ConnectPc
  /-- The session is in the registry. -/
  registered : Bool
  /-- The read or the write task of the session runs. -/
  tasksRunning : Bool
  closed : Bool
  /-- The time at the top of the event loop. -/
  now : ℤ
  handlers : SocketEvent → List ℕ
  timeouts : List (Option WsTimeout)
  intervals : List (Option WsInterval)
  /-- The functions of the script that were called so far. -/
  calls : List WsCall

namespace WsConnect

def new : WsConnect where
  pc := .opening
  registered := false
  tasksRunning := false
  closed := false
  now := 0
  handlers := fun _ => []
  timeouts := []
  intervals := []
  calls := []

inductive Event where
  | opened
  | openFails
  -- The operations of the socket, in a function of the script.
  | send
  | ping
  | close
  | on (event : SocketEvent) (fn : ℕ)
  | setTimeout (fn : ℕ) (due : ℤ)
  | setInterval (fn : ℕ) (ms next : ℤ)
  | clearTimeout (id : ℕ)
  | clearInterval (id : ℕ)
  | return
  | throw
  -- The shim goes on.
  | advance
  | poll (now : ℤ)
  | receive (e : WsEvent)
  /-- The tasks end by themselves. -/
  | tasksEnd
  deriving DecidableEq

/-- A function of the script runs. -/
def inScript (s : WsConnect) : Bool :=
  match s.pc with
  | .callback | .inside _ => true
  | _ => false

/-- `__ws_cleanup`: the drop of the session aborts its tasks. -/
def cleanup (s : WsConnect) : WsConnect := { s with registered := false, tasksRunning := false }

def call (s : WsConnect) (loop : ShimLoop) (site : CallSite) (fn : ℕ) : WsConnect :=
  { s with pc := .inside loop, calls := s.calls ++ [⟨site, fn⟩] }

/-- What follows the handlers of an event. -/
def afterHandlers (s : WsConnect) : SocketEvent → WsConnect
  | .error => { s with pc := .top, closed := true }
  | .close => { s.cleanup with pc := .returned }
  | _ => { s with pc := .top }

/-- The next element of a loop, or what follows the loop. -/
def advanceLoop (s : WsConnect) : ShimLoop → WsConnect
  | .handlers event i =>
      match (s.handlers event)[i]? with
      | some fn => s.call (.handlers event i) (.handler event) fn
      | none => s.afterHandlers event
  | .timeouts i =>
      match s.timeouts[i]? with
      | none => { s with pc := .atLoop (.intervals 0) }
      | some none => { s with pc := .atLoop (.timeouts (i + 1)) }
      | some (some t) =>
          if !t.fired && t.due ≤ s.now then
            { s with timeouts := s.timeouts.set i (some { t with fired := true }) }.call
              (.timeouts i) .timeout t.fn
          else { s with pc := .atLoop (.timeouts (i + 1)) }
  | .intervals i =>
      match s.intervals[i]? with
      | none => { s with pc := if s.closed then .atLoop (.handlers .close 0) else .receiving }
      | some none => { s with pc := .atLoop (.intervals (i + 1)) }
      | some (some iv) =>
          if iv.next ≤ s.now then
            { s with intervals := s.intervals.set i (some { iv with next := s.now + iv.ms }) }.call
              (.intervals i) .interval iv.fn
          else { s with pc := .atLoop (.intervals (i + 1)) }

def advance (s : WsConnect) : Option WsConnect :=
  match s.pc with
  | .atLoop loop => some (s.advanceLoop loop)
  | .top => if s.closed then some { s with pc := .atLoop (.handlers .close 0) } else none
  | _ => none

def receive (s : WsConnect) : WsEvent → WsConnect
  | .message => { s with pc := .atLoop (.handlers .message 0) }
  | .binaryMessage => { s with pc := .atLoop (.handlers .binaryMessage 0) }
  | .ping => { s with pc := .atLoop (.handlers .ping 0) }
  | .pong => { s with pc := .atLoop (.handlers .pong 0) }
  | .error => { s with pc := .atLoop (.handlers .error 0) }
  | .close => { s with pc := .top, closed := true }
  | .timeout => { s with pc := .top }

/-- What an operation of the socket does to the state of the shim. -/
def operate (s : WsConnect) : Event → Option WsConnect
  | .send => some s
  | .ping => some s
  | .close => some { s with closed := true }
  | .on event fn =>
      some { s with handlers := Function.update s.handlers event (s.handlers event ++ [fn]) }
  | .setTimeout fn due => some { s with timeouts := s.timeouts ++ [some ⟨fn, due, false⟩] }
  | .setInterval fn ms next => some { s with intervals := s.intervals ++ [some ⟨fn, ms, next⟩] }
  | .clearTimeout id => some { s with timeouts := s.timeouts.set id none }
  | .clearInterval id => some { s with intervals := s.intervals.set id none }
  | _ => none

def step (s : WsConnect) : Event → Option WsConnect
  | .opened =>
      if s.pc = .opening then
        some { s with
          pc := .callback
          registered := true
          tasksRunning := true
          calls := s.calls ++ [⟨.callback, 0⟩] }
      else none
  | .openFails => if s.pc = .opening then some { s with pc := .thrown } else none
  | .return =>
      match s.pc with
      | .callback => some { s with pc := .atLoop (.handlers .open 0) }
      | .inside loop => some { s with pc := .atLoop loop.succ }
      | _ => none
  | .throw => if s.inScript then some { s with pc := .thrown } else none
  | .advance => s.advance
  | .poll now =>
      if s.pc = .top && !s.closed then some { s with pc := .atLoop (.timeouts 0), now } else none
  | .receive e => if s.pc = .receiving then some (s.receive e) else none
  | .tasksEnd => some { s with tasksRunning := false }
  | e => if s.inScript then s.operate e else none

end WsConnect

def connectSystem : StepSystem WsConnect WsConnect.Event where
  init s := s = .new
  step := WsConnect.step

end K6Rs
