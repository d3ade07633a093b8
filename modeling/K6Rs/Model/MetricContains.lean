import K6Rs.Model.EventStream
import K6Rs.Model.Summary

/-! What the values of a metric are, as the event stream, the registry and the summary tell it. -/

namespace K6Rs

/-- `name.split('{').next()`, which is also the name that a sample has in the event stream. -/
def baseName (name : Str) : Str := name.takeWhile (· ≠ '{')

/-- `metric_contains`, by metric name. -/
abbrev MetricContains := KeyMap Str Str

namespace MetricContains

def registerContains (table : MetricContains) (name contains : Str) : MetricContains :=
  table.upsert name fun value => value.getD contains

/-- The names of times that have no prefix in common. -/
def timeNames : List Str :=
  ["iteration_duration".toList, "group_duration".toList, "ws_connecting".toList,
    "ws_session_duration".toList, "ws_ping".toList, "grpc_req_duration".toList]

def contains (table : MetricContains) (name : Str) : Str :=
  let base := baseName name
  match table.find? base with
  | some value => value
  | none =>
      if base = "data_sent".toList ∨ base = "data_received".toList then "data".toList
      else if ("http_req_".toList.isPrefixOf base ∧ base ≠ "http_req_failed".toList) ∨
        base ∈ timeNames then
        "time".toList
      else "default".toList

/-- The table after the calls of `register_contains`, by name and contents. -/
def ofCalls (calls : List (Str × Str)) : MetricContains :=
  calls.foldl (fun table call => table.registerContains call.1 call.2) ∅

end MetricContains

/-- The contents in a row of the summary, by the name that the row goes by. -/
def summaryContains : EventStream.MetricKind → Str → Str
  | .trend, name => trendContains name
  | _, _ => "default".toList

/-- A row of the snapshot goes by its key, a synthesized row by the name of its selector. -/
def summaryName (synthesized : Bool) (key : Str) : Str := if synthesized then baseName key else key

end K6Rs
