import K6Rs.Model.HyperClient

/-! How the two clients read the body of a response, and what the reqwest client counts of it. A
reader is given what its stream has left, and gives back what it leaves. -/

namespace K6Rs

/-- A frame of a body: data, or the trailers. -/
inductive Frame where
  | data (bytes : List UInt8)
  | trailers (headers : Headers)

def Frame.dataRef : Frame → Option (List UInt8)
  | .data bytes => some bytes
  | .trailers _ => none

inductive ResponseBody where
  | buffered (bytes : List UInt8)
  | discarded

abbrev Incoming := List (Except Str Frame)

/-- What `Response::chunk` gives in turn: the data of the frames. -/
abbrev Chunks := List (Except Str (List UInt8))

/-! ## The hyper client -/

def drainFrames : Incoming → Except Str ResponseBody × Incoming
  | [] => (.ok .discarded, [])
  | .error e :: body => (.error ("draining response body (discard mode): ".toList ++ e), body)
  | .ok _ :: body => drainFrames body

def bufferFrames (cap : ℕ) (buffer : List UInt8) : Incoming → Except Str ResponseBody × Incoming
  | [] => (.ok (.buffered buffer), [])
  | .error e :: body => (.error ("reading response body frame: ".toList ++ e), body)
  | .ok frame :: body =>
      match frame.dataRef with
      | none => bufferFrames cap buffer body
      | some data =>
          if buffer.length < cap then
            let remaining := cap - buffer.length
            let take := min remaining data.length
            bufferFrames cap (buffer ++ data.take take) body
          else bufferFrames cap buffer body

def readBodyWithCapAndDrain (body : Incoming) (discard : Bool) (cap : ℕ) :
    Except Str ResponseBody × Incoming :=
  if discard then drainFrames body else bufferFrames cap [] body

/-! ## The reqwest client -/

def appendCappedChunk (buffer chunk : List UInt8) (cap : ℕ) : List UInt8 :=
  if cap ≤ buffer.length then buffer
  else
    let remaining := cap - buffer.length
    let take := min remaining chunk.length
    buffer ++ chunk.take take

def bufferChunks (cap : ℕ) (body : List UInt8) : Chunks → Except Str (List UInt8) × Chunks
  | [] => (.ok body, [])
  | .error e :: chunks => (.error e, chunks)
  | .ok chunk :: chunks => bufferChunks cap (appendCappedChunk body chunk cap) chunks

def bufferResponseBody (response : Chunks) (cap : ℕ) : Except Str (List UInt8) × Chunks :=
  bufferChunks cap [] response

def drainChunks (total : ℕ) : Chunks → Except Str ℕ × Chunks
  | [] => (.ok total, [])
  | .error e :: chunks => (.error e, chunks)
  | .ok chunk :: chunks => drainChunks (total + chunk.length) chunks

def drainResponseBody (response : Chunks) : Except Str ℕ × Chunks := drainChunks 0 response

/-- The size of the status line and the headers, with the reason phrase of the status. -/
def estimateResponseHeaderBytes (reason : Str) (headers : List HeaderLine) : ℕ :=
  8 + 1 + 3 + 1 + Str.utf8Len reason + 2 +
    (headers.map fun line => Str.utf8Len line.name + 2 + line.value.length + 2).sum + 2

/-- The part of `send` that reads the body: what is kept of it, and `data_received`. -/
def receiveBody (discardResponseBodies : Bool) (maxResponseBodySize : ℕ) (reason : Str)
    (headers : List HeaderLine) (response : Chunks) : Except Str (ResponseBody × ℕ) × Chunks :=
  let responseHeaderBytes := estimateResponseHeaderBytes reason headers
  if discardResponseBodies then
    let (drained, rest) := drainResponseBody response
    (drained.map fun bodyBytesLen => (.discarded, responseHeaderBytes + bodyBytesLen), rest)
  else
    let (read, rest) := bufferResponseBody response maxResponseBodySize
    (read.map fun buffered => (.buffered buffered, responseHeaderBytes + buffered.length), rest)

end K6Rs
