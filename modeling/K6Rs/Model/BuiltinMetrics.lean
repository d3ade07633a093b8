import K6Rs.Model.Metrics

/-! The metrics that the engine records itself: each call writes to the registry under fixed names,
and a request writes all of its metrics under one tag set. -/

namespace K6Rs

open FloatOps

/-- The times of a request, in milliseconds. -/
structure Timings (F : Type) where
  blocked : F
  connecting : F
  tlsHandshaking : F
  sending : F
  waiting : F
  receiving : F
  duration : F

namespace BuiltinMetrics

variable {F H : Type} [FloatOps F] [Histogram F H] (reg : MetricsRegistry F H)

def recordIteration (durationMs : F) : MetricsRegistry F H :=
  (reg.counterAdd "iterations".toList 1).trendAdd "iteration_duration".toList durationMs

def recordDroppedIteration : MetricsRegistry F H := reg.counterAdd "dropped_iterations".toList 1

def recordDroppedIterations (count : UInt64) : MetricsRegistry F H :=
  if 0 < count then reg.counterAdd "dropped_iterations".toList count else reg

/-- The rate that a check adds to; its group is counted in the group tree. -/
def recordCheck (passed : Bool) : MetricsRegistry F H := reg.rateAdd "checks".toList passed

/-- The trend that a group adds to; its node has a trend of its own. -/
def recordGroupDuration (durationMs : F) : MetricsRegistry F H :=
  reg.trendAdd "group_duration".toList durationMs

def recordHttpRequestTaggedWithFailure (timings : Timings F) (failed : Option Bool)
    (tags : List (Str × Str)) : MetricsRegistry F H :=
  let suffix := canonicalTagSuffix tags
  let key := writeCanonicalKey [] "http_reqs".toList suffix
  let reg := reg.counterAdd key 1
  let (reg, key) :=
    match failed with
    | some failed =>
        let key := writeCanonicalKey key "http_req_failed".toList suffix
        (reg.rateAdd key failed, key)
    | none => (reg, key)
  let key := writeCanonicalKey key "http_req_duration".toList suffix
  let reg := reg.trendAdd key timings.duration
  let key := writeCanonicalKey key "http_req_blocked".toList suffix
  let reg := reg.trendAdd key timings.blocked
  let key := writeCanonicalKey key "http_req_connecting".toList suffix
  let reg := reg.trendAdd key timings.connecting
  let key := writeCanonicalKey key "http_req_tls_handshaking".toList suffix
  let reg := reg.trendAdd key timings.tlsHandshaking
  let key := writeCanonicalKey key "http_req_sending".toList suffix
  let reg := reg.trendAdd key timings.sending
  let key := writeCanonicalKey key "http_req_waiting".toList suffix
  let reg := reg.trendAdd key timings.waiting
  let key := writeCanonicalKey key "http_req_receiving".toList suffix
  reg.trendAdd key timings.receiving

def recordDataSent (bytes : UInt64) : MetricsRegistry F H := reg.counterAdd "data_sent".toList bytes

def recordDataReceived (bytes : UInt64) : MetricsRegistry F H :=
  reg.counterAdd "data_received".toList bytes

def recordWsSession (durationMs : F) (tags : List (Str × Str)) : MetricsRegistry F H :=
  (reg.counterAddTagged "ws_sessions".toList 1 tags).trendAddTagged "ws_session_duration".toList
    durationMs tags

def recordWsConnecting (durationMs : F) (tags : List (Str × Str)) : MetricsRegistry F H :=
  reg.trendAddTagged "ws_connecting".toList durationMs tags

def recordWsMsgSent (tags : List (Str × Str)) : MetricsRegistry F H :=
  reg.counterAddTagged "ws_msgs_sent".toList 1 tags

def recordWsMsgReceived (tags : List (Str × Str)) : MetricsRegistry F H :=
  reg.counterAddTagged "ws_msgs_received".toList 1 tags

def recordWsPing (durationMs : F) (tags : List (Str × Str)) : MetricsRegistry F H :=
  reg.trendAddTagged "ws_ping".toList durationMs tags

def recordGrpcRequest (durationMs : F) (tags : List (Str × Str)) : MetricsRegistry F H :=
  (reg.counterAddTagged "grpc_reqs".toList 1 tags).trendAddTagged "grpc_req_duration".toList
    durationMs tags

end BuiltinMetrics

end K6Rs
