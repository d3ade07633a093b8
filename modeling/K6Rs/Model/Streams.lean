import Mathlib.Data.List.Basic

/-! The streams of the shim: a readable stream with the functions of its source, the reader, and the
loop that pipes into a writable stream. A value of a script is `none` when it is undefined. -/

namespace K6Rs

variable {α τ : Type}

/-- What a function of a source does with its controller. -/
inductive ControllerOp (α : Type) where
  | enqueue (chunk : Option α)
  | close
  | error (e : Option α)

inductive StreamError (α : Type) where
  | typeError (message : String)
  | thrown (e : Option α)

/-- The functions of a source, by what they do before they return; `pull` by the number of its
earlier calls. -/
structure UnderlyingSource (α : Type) where
  start : List (ControllerOp α)
  pull : Option (ℕ → List (ControllerOp α))

structure ReadableStream (α : Type) where
  queue : List (Option α)
  closed : Bool
  closeRequested : Bool
  errored : Option (Option α)
  /-- The stream has a reader. -/
  locked : Bool
  pullFn : Option (ℕ → List (ControllerOp α))
  /-- The calls of `pullFn` so far. -/
  pulls : ℕ

namespace ReadableStream

def control (stream : ReadableStream α) : ControllerOp α → Except (StreamError α) (ReadableStream α)
  | .enqueue chunk =>
      if stream.closeRequested then .error (.typeError "Cannot enqueue after close")
      else .ok { stream with queue := stream.queue ++ [chunk] }
  | .close => .ok { stream with closeRequested := true, closed := true }
  | .error e => .ok { stream with errored := some e }

/-- A call of a function of the source, up to an operation that throws. -/
def controlAll (stream : ReadableStream α) :
    List (ControllerOp α) → Except (StreamError α) Unit × ReadableStream α
  | [] => (.ok (), stream)
  | op :: ops =>
      match stream.control op with
      | .error e => (.error e, stream)
      | .ok next => next.controlAll ops

def empty (pullFn : Option (ℕ → List (ControllerOp α))) : ReadableStream α where
  queue := []
  closed := false
  closeRequested := false
  errored := none
  locked := false
  pullFn
  pulls := 0

/-- `new ReadableStream(underlyingSource)`. -/
def new (source : UnderlyingSource α) : Except (StreamError α) Unit × ReadableStream α :=
  (empty source.pull).controlAll source.start

structure ReadResult (α : Type) where
  value : Option α
  done : Bool

def read (stream : ReadableStream α) :
    Except (StreamError α) (ReadResult α) × ReadableStream α :=
  match stream.errored with
  | some e => (.error (.thrown e), stream)
  | none =>
      match stream.queue with
      | value :: queue => (.ok ⟨value, false⟩, { stream with queue })
      | [] =>
          if stream.closed then (.ok ⟨none, true⟩, stream)
          else
            match stream.pullFn with
            | none => (.ok ⟨none, stream.closed⟩, stream)
            | some pull =>
                match { stream with pulls := stream.pulls + 1 }.controlAll (pull stream.pulls) with
                | (.error e, stream) => (.error e, stream)
                | (.ok _, stream) =>
                    match stream.queue with
                    | value :: queue => (.ok ⟨value, false⟩, { stream with queue })
                    | [] => (.ok ⟨none, stream.closed⟩, stream)

end ReadableStream

/-- The functions of a sink, on the state they work on. -/
structure UnderlyingSink (α τ : Type) where
  write : τ → Option α → τ
  close : τ → τ

structure WritableStream (α τ : Type) where
  sink : UnderlyingSink α τ
  state : τ
  closed : Bool
  /-- The stream has a writer. -/
  locked : Bool

namespace WritableStream

def new (sink : UnderlyingSink α τ) (state : τ) : WritableStream α τ := ⟨sink, state, false, false⟩

def write (stream : WritableStream α τ) (chunk : Option α) :
    Except (StreamError α) (WritableStream α τ) :=
  if stream.closed then .error (.typeError "Cannot write to a closed stream")
  else .ok { stream with state := stream.sink.write stream.state chunk }

def close (stream : WritableStream α τ) : WritableStream α τ :=
  { stream with closed := true, state := stream.sink.close stream.state }

end WritableStream

/-! ## Pipes -/

/-- The loop of a pipe; without fuel it has not ended. -/
def pipeLoop : ℕ → ReadableStream α → WritableStream α τ →
    Option (Except (StreamError α) Unit × ReadableStream α × WritableStream α τ)
  | 0, _, _ => none
  | fuel + 1, readable, writable =>
      match readable.read with
      | (.error e, readable) => some (.error e, readable, writable)
      | (.ok result, readable) =>
          if result.done then some (.ok (), readable, writable)
          else
            match writable.write result.value with
            | .error e => some (.error e, readable, writable)
            | .ok writable => pipeLoop fuel readable writable

/-- `pipeTo`, and what `pipeThrough` does before it returns. -/
def pipeTo (fuel : ℕ) (readable : ReadableStream α) (writable : WritableStream α τ) :
    Option (Except (StreamError α) Unit × ReadableStream α × WritableStream α τ) :=
  if readable.locked then
    some (.error (.typeError "ReadableStream already has a reader"), readable, writable)
  else if writable.locked then
    some (.error (.typeError "WritableStream already has a writer"),
      { readable with locked := true }, writable)
  else
    match pipeLoop fuel { readable with locked := true } { writable with locked := true } with
    | none => none
    | some (.error e, readable, writable) => some (.error e, readable, writable)
    | some (.ok _, readable, writable) =>
        some (.ok (), { readable with locked := false }, writable.close)

/-- A sink that keeps what it is called with. -/
inductive SinkCall (α : Type) where
  | write (chunk : Option α)
  | close

def recordingSink (α : Type) : UnderlyingSink α (List (SinkCall α)) where
  write calls chunk := calls ++ [.write chunk]
  close calls := calls ++ [.close]

/-- The writable side of a transform without functions; its state is the readable side. -/
def identitySink (α : Type) : UnderlyingSink α (ReadableStream α) where
  write readable chunk := { readable with queue := readable.queue ++ [chunk] }
  close readable := { readable with closed := true }

/-- `pipeThrough(new TransformStream())`: the readable side that it returns. -/
def pipeThroughIdentity (fuel : ℕ) (readable : ReadableStream α) :
    Option (Except (StreamError α) (ReadableStream α)) :=
  (pipeTo fuel readable (.new (identitySink α) (.empty none))).map fun (result, _, writable) =>
    result.map fun _ => writable.state

end K6Rs
