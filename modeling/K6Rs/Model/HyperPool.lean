import K6Rs.Library.StepSystem
import K6Rs.Model.HyperClient

/-! The connection pool of the hyper client, with any number of requests in progress. A
request is in a state of `send_once`; its future can be dropped wherever it awaits. -/

namespace K6Rs

structure Conn (Ip : Type) where
  id : ℕ
  /-- The slot of the request that opened it. -/
  key : RouteKey Ip
  addr : Ip
  /-- The server name of its TLS handshake. -/
  serverName : Option Str
  deriving DecidableEq

/-- Where a request stands. -/
inductive RequestPc (Ip : Type) where
  | idle
  /-- Routed, with its pool slot. -/
  | routed (route : Route Ip) (key : RouteKey Ip)
  /-- It awaits `open_connection`. -/
  | opening (route : Route Ip) (key : RouteKey Ip)
  /-- It awaits the response head. -/
  | sending (route : Route Ip) (key : RouteKey Ip) (conn : Conn Ip)
  /-- It awaits the frames of the body. -/
  | draining (route : Route Ip) (key : RouteKey Ip) (conn : Conn Ip) (headers : List HeaderLine)

namespace RequestPc

variable {Ip : Type}

/-- The connection in use, with the route of its request. -/
def inUse : RequestPc Ip → Option (Route Ip × Conn Ip)
  | .sending route _ conn => some (route, conn)
  | .draining route _ conn _ => some (route, conn)
  | _ => none

def conn (pc : RequestPc Ip) : Option (Conn Ip) := pc.inUse.map Prod.snd

end RequestPc

structure HyperPool (Ip : Type) where
  pool : RouteKey Ip → List (Conn Ip)
  requests : ℕ → RequestPc Ip
  localIpIndex : ℕ
  /-- The connections opened so far. -/
  opened : ℕ
  closed : List (Conn Ip)
  /-- The connections that may not go back to the pool. -/
  spoiled : List (Conn Ip)
  /-- Those of them that did. -/
  reentered : List (Conn Ip)

namespace HyperPool

variable {Ip Net : Type} [DecidableEq Ip]

def new : HyperPool Ip where
  pool := fun _ => []
  requests := fun _ => .idle
  localIpIndex := 0
  opened := 0
  closed := []
  spoiled := []
  reentered := []

inductive Event (Ip : Type) where
  | start (r : ℕ) (url : Str)
  | acquire (r : ℕ)
  /-- A connection is opened; `answer` is the address the resolver gives first. -/
  | opened (r : ℕ) (answer : Option Ip)
  | openFailed (r : ℕ)
  | sendFailed (r : ℕ)
  | respond (r : ℕ) (headers : List HeaderLine)
  | drainFailed (r : ℕ)
  | drained (r : ℕ)
  /-- The future of the request is dropped, by the timeout or by its owner. -/
  | abort (r : ℕ)

def setRequest (s : HyperPool Ip) (r : ℕ) (pc : RequestPc Ip) : HyperPool Ip :=
  { s with requests := Function.update s.requests r pc }

/-- `next_source_ip`, with the index after it. -/
def nextSourceIp (cfg : HyperConfig Ip Net) (index : ℕ) : Option Ip × ℕ :=
  if cfg.localIps.isEmpty then (none, index)
  else (cfg.localIps[index % cfg.localIps.length]?, index + 1)

def tryAcquire (s : HyperPool Ip) (key : RouteKey Ip) : Option (Conn Ip × HyperPool Ip) :=
  match s.pool key with
  | [] => none
  | conn :: rest => some (conn, { s with pool := Function.update s.pool key rest })

def release (s : HyperPool Ip) (key : RouteKey Ip) (conn : Conn Ip) : HyperPool Ip :=
  { s with
    pool := Function.update s.pool key (conn :: s.pool key)
    reentered := if conn ∈ s.spoiled then conn :: s.reentered else s.reentered }

def spoil (s : HyperPool Ip) (conn : Conn Ip) : HyperPool Ip :=
  { s with spoiled := conn :: s.spoiled }

/-- The connection is dropped. -/
def drop (s : HyperPool Ip) (conn : Conn Ip) : HyperPool Ip :=
  { s with closed := conn :: s.closed }

/-- The request fails, and with it its connection. -/
def fail (s : HyperPool Ip) (r : ℕ) (conn : Conn Ip) : HyperPool Ip :=
  ((s.setRequest r .idle).spoil conn).drop conn

/-- The end of `send_once`, after the body is drained. -/
def finish (cfg : HyperConfig Ip Net) (s : HyperPool Ip) (r : ℕ) (key : RouteKey Ip)
    (conn : Conn Ip) (headers : List HeaderLine) : HyperPool Ip :=
  let s := s.setRequest r .idle
  let s := if cfg.noConnectionReuse || headers.any HeaderLine.asksClose then s.spoil conn else s
  if cfg.noConnectionReuse || connectionCloseRequested (headers.map HeaderLine.kept) then
    s.drop conn
  else s.release key conn

/-- The server name that a route's connection is opened with. -/
def serverName (route : Route Ip) : Option Str :=
  match route.transport with
  | .http => none
  | .https => some route.host

def step (lib : NetLib Ip Net) (cfg : HyperConfig Ip Net) (s : HyperPool Ip) :
    Event Ip → Option (HyperPool Ip)
  | .start r url =>
      match s.requests r, Route.ofUrl lib cfg url with
      | .idle, .ok route =>
          let (sourceIp, index) := nextSourceIp cfg s.localIpIndex
          some { s.setRequest r (.routed route (route.key sourceIp)) with localIpIndex := index }
      | _, _ => none
  | .acquire r =>
      match s.requests r with
      | .routed route key =>
          if cfg.noConnectionReuse then some (s.setRequest r (.opening route key))
          else
            match s.tryAcquire key with
            | some (conn, s) => some (s.setRequest r (.sending route key conn))
            | none => some (s.setRequest r (.opening route key))
      | _ => none
  | .opened r answer =>
      match s.requests r with
      | .opening route key =>
          match connectAddress lib cfg (fun _ => answer) route.target with
          | .error _ => none
          | .ok addr =>
              let conn := ⟨s.opened, key, addr, serverName route⟩
              some { s.setRequest r (.sending route key conn) with opened := s.opened + 1 }
      | _ => none
  | .openFailed r =>
      match s.requests r with
      | .opening _ _ => some (s.setRequest r .idle)
      | _ => none
  | .sendFailed r =>
      match s.requests r with
      | .sending _ _ conn => some (s.fail r conn)
      | _ => none
  | .respond r headers =>
      match s.requests r with
      | .sending route key conn => some (s.setRequest r (.draining route key conn headers))
      | _ => none
  | .drainFailed r =>
      match s.requests r with
      | .draining _ _ conn _ => some (s.fail r conn)
      | _ => none
  | .drained r =>
      match s.requests r with
      | .draining _ key conn headers => some (finish cfg s r key conn headers)
      | _ => none
  | .abort r =>
      match s.requests r with
      | .opening _ _ => some (s.setRequest r .idle)
      | .sending _ _ conn => some (s.fail r conn)
      | .draining _ _ conn _ => some (s.fail r conn)
      | _ => none

/-- A response asks for `close` and its first `Connection` header, as the client reads it,
does not, while connections are reused. -/
def Unheeded (cfg : HyperConfig Ip Net) (s : HyperPool Ip) : Event Ip → Prop
  | .drained r =>
      match s.requests r with
      | .draining _ _ _ headers =>
          cfg.noConnectionReuse = false ∧ headers.any HeaderLine.asksClose = true ∧
            connectionCloseRequested (headers.map HeaderLine.kept) = false
      | _ => False
  | _ => False

end HyperPool

/-- The requests of one hyper client. -/
def hyperSystem {Ip Net : Type} [DecidableEq Ip] (lib : NetLib Ip Net)
    (cfg : HyperConfig Ip Net) : StepSystem (HyperPool Ip) (HyperPool.Event Ip) where
  init s := s = .new
  step := HyperPool.step lib cfg

end K6Rs
