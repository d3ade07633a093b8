import K6Rs.Model.Control
import K6Rs.Model.Summary

/-! The taints of the control surface. A metric is tainted when one of its thresholds fails and the
summary shows it; the status reports whether any metric is. -/

namespace K6Rs

open FloatOps

/-- The attributes of the status resource. -/
structure StatusAttributes where
  status : ℕ
  paused : Bool
  vus : ℕ
  vusMax : ℕ
  stopped : Bool
  running : Bool
  tainted : Bool

/-- The part of the control that the taints are computed from and kept in. -/
structure TaintControl (F H : Type) [FloatOps F] where
  registry : MetricsRegistry F H
  thresholds : KeyMap Str (List Threshold)
  taintedMetrics : KeyMap Str Bool

namespace TaintControl

variable {F H : Type} [FloatOps F]

def new (thresholds : KeyMap Str (List Threshold)) : TaintControl F H where
  registry := .new
  thresholds
  taintedMetrics := ∅

/-- The status with the given taint; `cancelled` is the state of the cancellation token. -/
def statusWith (e : Execution) (activeVus initializedVus : ℕ) (cancelled tainted : Bool) :
    StatusAttributes where
  status := e.status
  paused := e.paused
  vus := activeVus
  vusMax := initializedVus
  stopped := e.stopped || cancelled
  running := e.started.isSome && e.ended.isNone
  tainted

def status (c : TaintControl F H) (e : Execution) (activeVus initializedVus : ℕ)
    (cancelled : Bool) : StatusAttributes :=
  statusWith e activeVus initializedVus cancelled (c.taintedMetrics.entries.any fun row => row.2)

variable [FloatParse F] [Histogram F H]

/-- Each metric with thresholds, by the key under which they are configured. -/
def taints (c : TaintControl F H) (snapshot : MetricsSnapshot F H) : KeyMap Str Bool :=
  (evaluate c.thresholds snapshot).foldl (fun taints result =>
    taints.upsert result.metric fun tainted => tainted.getD false || !result.passed) ∅

/-- `groupTree` is the tree of groups at the time of the snapshot. -/
def updateTaints (md5 : Str → Str) (isTerminal : Bool) (c : TaintControl F H) (elapsedSecs : F)
    (groupTree : GroupSnapshot F) : TaintControl F H :=
  if c.thresholds.entries.isEmpty then c
  else
    let snapshot := c.registry.snapshot elapsedSecs
    let observed :=
      (buildSummaryData md5 isTerminal snapshot groupTree zero (some c.thresholds)).metrics
    { c with
      taintedMetrics := (c.taints snapshot).retain fun name => (observed.find? name).isSome }

end TaintControl

end K6Rs
