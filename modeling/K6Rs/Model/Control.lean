import K6Rs.Library.FloatLit
import K6Rs.Library.Json
import K6Rs.Library.StepSystem

/-! The REST control surface: status patches, the waits for the start, and the end of the
run. A patch and each look of a waiter at the execution happen under its lock, and are one
event each. -/

namespace K6Rs

/-! ## Status patches -/

structure Patch where
  stopped : Bool
  paused : Option Bool
  scale : Bool

structure ApiError where
  status : ℕ
  title : Str
  detail : Str

namespace Patch

def jsonKind : Json → Str
  | .string _ => "string".toList
  | .number _ => "number".toList
  | .bool _ => "bool".toList
  | .array _ => "array".toList
  | _ => "object".toList

def cannotUnmarshal (x : Json) (target : Str) : Str :=
  "json: cannot unmarshal ".toList ++ jsonKind x ++ " into Go ".toList ++ target

/-- What is there, and does not meet `ok`, is rejected. -/
def check (x : Json) (ok : Json → Bool) (detail : Str) : Except Str Unit :=
  if !x.isNull && !ok x then .error detail else .ok ()

def parseJson (fromSlice : List UInt8 → Except JsonError Json) (body : List UInt8) :
    Except Str Json :=
  match fromSlice body with
  | .ok v => .ok v
  | .error e => .error (if e.isEof then "unexpected end of JSON input".toList else e.text)

def parsePaused (a : Json) : Except Str (Option Bool) :=
  let object := a.field "paused".toList
  match object with
  | .null => .ok none
  | .bool b => .ok (some b)
  | .object _ => do
      ["Bool".toList, "Valid".toList].forM fun name =>
        let value := object.field name
        check value Json.isBoolean
          (cannotUnmarshal value ("struct field NullBool.".toList ++ name ++
            " of type bool".toList))
      return some (((object.field "Bool".toList).asBool).getD false)
  | x => .error (cannotUnmarshal x "value of type null.Bool".toList)

/-- `s.parse::<i64>()`. -/
def parseI64 (s : Str) : Option ℤ :=
  let (neg, ds) := FloatLit.sign s
  if ds.isEmpty || !ds.all FloatLit.isDigit then none
  else
    let n : ℤ := if neg then -(FloatLit.digits ds) else FloatLit.digits ds
    if -2 ^ 63 ≤ n ∧ n < 2 ^ 63 then some n else none

/-- Whether the field `vus` or `vus-max` asks for another scale; `debug` is how the
language prints a string in a message. -/
def parseScale (debug : Str → Str) (a : Json) (name : Str) : Except Str Bool :=
  match a.field name with
  | .null => .ok false
  | .string [] => .ok false
  | .string s =>
      match parseI64 s with
      | none => .error ("strconv.ParseInt: parsing ".toList ++ debug s ++ ": invalid syntax".toList)
      | some _ => .ok true
  | .object o => do
      let integer := (Json.object o).field "Int64".toList
      let valid := (Json.object o).field "Valid".toList
      check integer (fun x => x.asI64.isSome) "json: invalid Int64 in null.Int".toList
      check valid Json.isBoolean "json: invalid Valid in null.Int".toList
      return true
  | x =>
      if x.asI64.isSome then .ok true
      else .error (cannotUnmarshal x "value of type null.Int".toList)

def ofJson (debug : Str → Str) (v : Json) : Except Str Patch := do
  let d := v.field "data".toList
  let a := d.field "attributes".toList
  [(v, "v1.StatusJSONAPI".toList), (d, "v1.statusData".toList), (a, "v1.Status".toList)].forM
    fun (x, name) => check x Json.isObject (cannotUnmarshal x ("value of type ".toList ++ name))
  ["type".toList, "id".toList].forM fun name =>
    let x := d.field name
    check x Json.isString
      (cannotUnmarshal x ("struct field statusData.data.".toList ++ name ++
        " of type string".toList))
  let status := a.field "status".toList
  check status (fun x => x.asU64.any fun n => n < 2 ^ 32)
    (cannotUnmarshal status
      "struct field Status.data.attributes.status of type lib.ExecutionStatus".toList)
  let paused ← parsePaused a
  let vus ← parseScale debug a "vus".toList
  let vusMax ← parseScale debug a "vus-max".toList
  ["stopped".toList, "running".toList, "tainted".toList].forM fun name =>
    let x := a.field name
    check x Json.isBoolean
      (cannotUnmarshal x
        ("struct field Status.data.attributes.".toList ++ name ++ " of type bool".toList))
  return { stopped := ((a.field "stopped".toList).asBool).getD false
           paused
           scale := vus || vusMax }

end Patch

/-- The parts of the language and its libraries that the control surface calls. -/
structure JsonReader where
  fromSlice : List UInt8 → Except JsonError Json
  debug : Str → Str

def parsePatch (reader : JsonReader) (body : List UInt8) : Except Str Patch := do
  Patch.ofJson reader.debug (← Patch.parseJson reader.fromSlice body)

/-! ## The execution -/

structure Execution where
  status : ℕ
  paused : Bool
  started : Option ℕ
  ended : Option ℕ
  stopped : Bool
  deriving DecidableEq

/-- Where a call of `wait_for_start` stands. -/
inductive WaitPc where
  | idle
  /-- The notification is created, and the execution not yet looked at. -/
  | looking
  /-- The execution is paused; the `select!` is not yet polled. -/
  | polling
  | parked
  /-- The notification has arrived. -/
  | notified
  deriving DecidableEq

structure Control (n : ℕ) where
  execution : Execution
  cancel : Bool
  abort : Bool
  /-- The stored permit of `resume`, and the waiters that are registered with it. -/
  permit : Bool
  registered : List (Fin n)
  waiters : Fin n → WaitPc
  executor : Str
  scenario : Str
  /-- How many waits returned `true`. -/
  granted : ℕ

namespace Control

variable {n : ℕ}

def new (paused : Bool) (executor scenario : Str) (cancel : Bool) : Control n where
  execution :=
    { status := if paused then 4 else 3, paused, started := none, ended := none, stopped := false }
  cancel
  abort := false
  permit := false
  registered := []
  waiters := fun _ => .idle
  executor
  scenario
  granted := 0

def setWaiter (c : Control n) (w : Fin n) (pc : WaitPc) : Control n :=
  { c with waiters := Function.update c.waiters w pc }

/-- `resume.notify_one()`. -/
def notifyOne (c : Control n) : Control n :=
  match c.registered with
  | [] => { c with permit := true }
  | w :: rest => { c.setWaiter w .notified with registered := rest }

def stop (c : Control n) : Control n :=
  notifyOne { c with
    execution := { c.execution with stopped := true }
    cancel := true
    abort := true }

/-- The part of `patch` under the lock of the execution; the answer of a successful one,
the status, is read by `status`. -/
def apply (c : Control n) (patch : Patch) : Control n × Except ApiError Unit :=
  let scale (c : Control n) : Control n × Except ApiError Unit :=
    if patch.scale then
      (c, .error ⟨500, "Execution config error".toList,
        "live VU configuration updates are not supported".toList⟩)
    else (c, .ok ())
  if patch.stopped then (c.stop, .ok ())
  else
    match patch.paused with
    | none => scale c
    | some paused =>
        if c.execution.started.isNone && c.execution.paused then
          if paused then
            (c, .error ⟨500, "Pause error".toList, "execution is already paused".toList⟩)
          else scale (notifyOne { c with execution := { c.execution with paused := false } })
        else
          (c, .error ⟨500, "Pause error".toList,
            c.executor ++ " executor '".toList ++ c.scenario ++
              "' doesn't support pause and resume operations after its start".toList⟩)

def patch (reader : JsonReader) (c : Control n) (body : List UInt8) :
    Control n × Except ApiError Unit :=
  match parsePatch reader body with
  | .error detail => (c, .error ⟨400, "Invalid data".toList, detail⟩)
  | .ok patch => c.apply patch

inductive Event (n : ℕ) where
  | patch (body : List UInt8)
  /-- The waiter calls `wait_for_start`. -/
  | wait (w : Fin n)
  /-- It looks at the execution, under its lock. -/
  | look (w : Fin n) (now : ℕ)
  /-- Its `select!` is polled for the first time. -/
  | poll (w : Fin n)
  /-- It goes round the loop after a notification. -/
  | awake (w : Fin n)
  /-- It returns `false` from the `select!`. -/
  | giveUp (w : Fin n)
  | phase (status : ℕ)
  | finish (now : ℕ)
  /-- The run is cancelled from outside. -/
  | interrupt

def step (reader : JsonReader) (c : Control n) : Event n → Option (Control n)
  | .patch body => some (c.patch reader body).1
  | .wait w => if c.waiters w = .idle then some (c.setWaiter w .looking) else none
  | .look w now =>
      if c.waiters w = .looking then
        if c.cancel then some (c.setWaiter w .idle)
        else if !c.execution.paused then
          some { c.setWaiter w .idle with
            execution := { c.execution with started := some now, status := 5 }
            granted := c.granted + 1 }
        else some (c.setWaiter w .polling)
      else none
  | .poll w =>
      if c.waiters w = .polling then
        if c.permit then some { c.setWaiter w .looking with permit := false }
        else some { c.setWaiter w .parked with registered := c.registered ++ [w] }
      else none
  | .awake w => if c.waiters w = .notified then some (c.setWaiter w .looking) else none
  | .giveUp w =>
      if c.cancel then
        match c.waiters w with
        | .polling => some (c.setWaiter w .idle)
        | .parked =>
            some { c.setWaiter w .idle with registered := c.registered.erase w }
        -- A notification that is dropped unread goes to the next waiter.
        | .notified => some (c.setWaiter w .idle).notifyOne
        | _ => none
      else none
  | .phase status => some { c with execution := { c.execution with status } }
  | .finish now =>
      some { c with
        execution := { c.execution with
          ended := some now
          status := if c.execution.stopped then 10 else 9 } }
  | .interrupt => some { c with cancel := true }

end Control

/-- A control surface with `n` waiters. -/
def controlSystem (n : ℕ) (reader : JsonReader) : StepSystem (Control n) (Control.Event n) where
  init c := ∃ paused executor scenario cancel, c = .new paused executor scenario cancel
  step := Control.step reader

end K6Rs
