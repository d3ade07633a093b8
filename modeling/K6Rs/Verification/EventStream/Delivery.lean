import K6Rs.Model.EventStream

/-! # Every recorded event is written or counted

The events that were sent are the points of the stream, the writer's batch and the queue,
in this order; the writer ends its loop only when nobody can send and the queue is empty. -/

namespace K6Rs

namespace EventStream

variable {n : ℕ} {F : Type} [DecidableEq F]

/-- What each event does. -/
inductive Steps (s : EventStream n F) : Event n F → EventStream n F → Prop where
  | record (p ev) (h : s.postings.pending p = none) (hp : s.senders p = true) :
      Steps s (.record p ev) { s.setProducer p .entered with postings := s.postings.post p ev h }
  | define (p x) (hx : s.postings.pending p = some x) (hpc : s.producers p = .entered) :
      Steps s (.define p)
        { s.setProducer p .defined with defState := s.defState.define x.content }
  | observe (p) (hpc : s.producers p = .defined) :
      Steps s (.observe p) { s.setProducer p .observed with
        dropState := s.dropState.observeOccupancy s.channel.queue.length }
  | send (p x channel) (hx : s.postings.pending p = some x) (hpc : s.producers p = .observed)
      (h : s.channel.trySend x = some channel) :
      Steps s (.send p)
        { s.setProducer p .idle with channel, postings := s.postings.send p x hx }
  | vanish (p x) (hx : s.postings.pending p = some x) (hpc : s.producers p = .observed)
      (h : s.writer = .done) :
      Steps s (.send p) { s.setProducer p .idle with postings := s.postings.refuse p x hx }
  | bounce (p) (hpc : s.producers p = .observed) : Steps s (.send p) (s.setProducer p .full)
  | countDrop (p x) (hx : s.postings.pending p = some x) (hpc : s.producers p = .full) :
      Steps s (.countDrop p) { s.setProducer p .idle with
        dropState := s.dropState.recordDrop x.content.metricName
        postings := s.postings.refuse p x hx }
  | release (p) (hpc : s.producers p = .idle) :
      Steps s (.release p) { s with senders := Function.update s.senders p false }
  | recv (batch x channel) (hpc : s.writer = .accumulating batch)
      (h : s.channel.recv = some (x, channel)) :
      Steps s .recv { s with channel, writer := .accumulating (batch ++ [x]) }
  | expire (batch) (hpc : s.writer = .accumulating batch) :
      Steps s .expire { s with writer := .flushing batch false }
  | closed (batch) (hpc : s.writer = .accumulating batch) (hempty : s.channel.queue = [])
      (h : ∀ p, s.senders p = false) :
      Steps s .closed { s with writer := .flushing batch true }
  | flushDefs (batch closed) (hpc : s.writer = .flushing batch closed) :
      Steps s .flushDefs { s with
        writer := .emitting batch closed
        output := s.output ++ s.defState.queue.map .metric
        defState := { s.defState with queue := [] } }
  | emitPoints (batch) (hpc : s.writer = .emitting batch false) :
      Steps s .emitPoints { s with
        writer := .accumulating []
        output := s.output ++ batch.map .point }
  | emitLast (batch) (hpc : s.writer = .emitting batch true) :
      Steps s .emitPoints { s with
        writer := .finishing
        output := s.output ++ batch.map .point }
  | snapshot (hpc : s.writer = .finishing) :
      Steps s .snapshot { s with writer := .done, sidecar := some s.dropState.snapshot }

theorem steps_of_send {s s' : EventStream n F} {p : Fin n} (h : s.step (.send p) = some s') :
    Steps s (.send p) s' := by
  simp only [step] at h
  split at h
  · rename_i x hx
    split at h
    · rename_i hpc
      split at h
      · rename_i hdone
        cases h
        exact .vanish p x hx hpc hdone
      · rename_i channel hsend hopen
        cases h
        exact .send p x channel hx hpc hsend
      · cases h
        exact .bounce p hpc
    · cases h
  · cases h

theorem steps_of_step {s s' : EventStream n F} {e : Event n F} (h : s.step e = some s') :
    Steps s e s' := by
  cases e with
  | record p ev =>
      simp only [step] at h
      split at h
      · rename_i hp
        split at h <;> cases h
        exact .record p ev hp ‹_›
      · cases h
  | define p =>
      simp only [step] at h
      split at h
      · rename_i x hx
        split at h <;> cases h
        exact .define p x hx ‹_›
      · cases h
  | observe p =>
      simp only [step] at h
      split at h <;> cases h
      exact .observe p ‹_›
  | send p => exact steps_of_send h
  | countDrop p =>
      simp only [step] at h
      split at h
      · rename_i x hx
        split at h <;> cases h
        exact .countDrop p x hx ‹_›
      · cases h
  | release p =>
      simp only [step] at h
      split at h <;> cases h
      exact .release p ‹_›
  | recv =>
      simp only [step] at h
      split at h
      · rename_i batch x channel hpc hrecv
        split at h <;> cases h
        exact .recv batch x channel hpc hrecv
      · cases h
  | expire =>
      simp only [step] at h
      split at h <;> cases h
      exact .expire _ ‹_›
  | closed =>
      simp only [step] at h
      split at h
      · rename_i batch hpc
        split at h
        · rename_i hclosed
          cases h
          exact .closed batch hpc hclosed.2.1 hclosed.2.2
        · cases h
      · cases h
  | flushDefs =>
      simp only [step] at h
      split at h <;> cases h
      exact .flushDefs _ _ ‹_›
  | emitPoints =>
      simp only [step] at h
      split at h
      · rename_i batch closed hpc
        cases closed with
        | false => cases h; exact .emitPoints batch hpc
        | true => cases h; exact .emitLast batch hpc
      · cases h
  | snapshot =>
      simp only [step] at h
      split at h <;> cases h
      exact .snapshot ‹_›

/-! ## The producers -/

/-- A producer is idle exactly when no event of it is open, and holds its sink while one
is. -/
structure Matched (s : EventStream n F) : Prop where
  pending : ∀ p, s.postings.pending p = none ↔ s.producers p = .idle
  sender : ∀ p, s.producers p ≠ .idle → s.senders p = true

theorem Matched.move {s s' : EventStream n F} (h : s.Matched) (p : Fin n) {pc : RecordPc}
    (hproducers : s'.producers = Function.update s.producers p pc)
    (hpending : s'.postings.pending = s.postings.pending) (hsenders : s'.senders = s.senders)
    (hbusy : s.producers p ≠ .idle) (hpc : pc ≠ .idle) : s'.Matched := by
  constructor
  · intro q
    rw [hproducers, hpending, h.pending q]
    by_cases hq : q = p
    · rw [hq, Function.update_self]
      exact ⟨fun h => absurd h hbusy, fun h => absurd h hpc⟩
    · rw [Function.update_of_ne hq]
  · intro q hq
    rw [hsenders]
    by_cases hqp : q = p
    · exact hqp ▸ h.sender p hbusy
    · rw [hproducers, Function.update_of_ne hqp] at hq
      exact h.sender q hq

theorem Matched.settle {s s' : EventStream n F} (h : s.Matched) (p : Fin n)
    (hproducers : s'.producers = Function.update s.producers p .idle)
    (hpending : s'.postings.pending = Function.update s.postings.pending p none)
    (hsenders : s'.senders = s.senders) : s'.Matched := by
  constructor
  · intro q
    rw [hproducers, hpending]
    by_cases hq : q = p
    · simp [hq]
    · rw [Function.update_of_ne hq, Function.update_of_ne hq]
      exact h.pending q
  · intro q hq
    rw [hsenders]
    by_cases hqp : q = p
    · simp [hproducers, hqp] at hq
    · rw [hproducers, Function.update_of_ne hqp] at hq
      exact h.sender q hq

theorem Matched.step {s s' : EventStream n F} {e : Event n F} (h : s.Matched)
    (hs : Steps s e s') : s'.Matched := by
  cases hs with
  | record p ev hp hsender =>
      constructor
      · intro q
        by_cases hq : q = p
        · subst hq
          simp [setProducer, Postings.post]
        · simp [setProducer, Postings.post, Function.update_of_ne hq, h.pending q]
      · intro q hq
        by_cases hqp : q = p
        · exact hqp ▸ hsender
        · simp only [setProducer, Function.update_of_ne hqp] at hq
          exact h.sender q hq
  | define p x hx hpc => exact h.move p rfl rfl rfl (by simp [hpc]) (by simp)
  | observe p hpc => exact h.move p rfl rfl rfl (by simp [hpc]) (by simp)
  | send p x channel hx hpc hsend => exact h.settle p rfl rfl rfl
  | vanish p x hx hpc hdone => exact h.settle p rfl rfl rfl
  | bounce p hpc => exact h.move p rfl rfl rfl (by simp [hpc]) (by simp)
  | countDrop p x hx hpc => exact h.settle p rfl rfl rfl
  | release p hpc =>
      refine ⟨h.pending, fun q hq => ?_⟩
      have hqp : q ≠ p := fun hqp => hq (hqp ▸ hpc)
      simpa [Function.update_of_ne hqp] using h.sender q hq
  | _ => exact ⟨h.pending, h.sender⟩

/-! ## The writer -/

/-- The events the writer has received and not emitted. -/
def batch (s : EventStream n F) : List (StreamSample n F) :=
  match s.writer with
  | .accumulating batch => batch
  | .flushing batch _ => batch
  | .emitting batch _ => batch
  | _ => []

/-- The writer has seen the channel closed. -/
def Closing (s : EventStream n F) : Prop :=
  match s.writer with
  | .accumulating _ => False
  | .flushing _ closed => closed = true
  | .emitting _ closed => closed = true
  | _ => True

section Points

omit [DecidableEq F]

@[simp] theorem points_append (xs ys : List (StreamLine n F)) :
    points (xs ++ ys) = points xs ++ points ys :=
  List.filterMap_append

@[simp] theorem points_map_metric (ds : List MetricDef) :
    points (ds.map .metric : List (StreamLine n F)) = [] := by
  induction ds with
  | nil => rfl
  | cons d ds ih => exact ih

@[simp] theorem points_map_point (xs : List (StreamSample n F)) :
    points (xs.map .point) = xs := by
  induction xs with
  | nil => rfl
  | cons x xs ih => exact congrArg (x :: ·) ih

end Points

/-- Where the sent events are, and what holds once the channel is closed. -/
structure Flow (s : EventStream n F) : Prop where
  sent : s.postings.sent = points s.output ++ s.batch ++ s.channel.queue
  released : s.Closing → ∀ p, s.senders p = false
  drained : s.Closing → s.channel.queue = []

/-- A producer in a call keeps the channel open. -/
theorem Flow.not_closing {s : EventStream n F} (h : s.Flow) (hmatched : s.Matched) (p : Fin n)
    (hbusy : s.producers p ≠ .idle) : ¬s.Closing := by
  intro hclosing
  have hheld := hmatched.sender p hbusy
  rw [h.released hclosing p] at hheld
  cases hheld

theorem Flow.step {s s' : EventStream n F} {e : Event n F} (h : s.Flow) (hmatched : s.Matched)
    (hs : Steps s e s') : s'.Flow := by
  cases hs with
  | send p x channel hx hpc hsend =>
      have hopen : ¬s.Closing := h.not_closing hmatched p (by simp [hpc])
      refine ⟨?_, fun hc => absurd hc hopen, fun hc => absurd hc hopen⟩
      simp only [Postings.send, setProducer, h.sent, Channel.queue_of_trySend hsend,
        List.append_assoc]
      rfl
  | release p hpc =>
      refine ⟨h.sent, fun hc q => ?_, h.drained⟩
      change Function.update s.senders p false q = false
      by_cases hq : q = p
      · rw [hq, Function.update_self]
      · rw [Function.update_of_ne hq]
        exact h.released hc q
  | recv batch x channel hpc hrecv =>
      refine ⟨?_, nofun, nofun⟩
      rw [h.sent, Channel.queue_of_recv hrecv]
      simp [EventStream.batch, hpc]
  | expire batch hpc =>
      refine ⟨?_, nofun, nofun⟩
      rw [h.sent]
      simp [EventStream.batch, hpc]
  | closed batch hpc hempty hreleased =>
      refine ⟨?_, fun _ => hreleased, fun _ => hempty⟩
      rw [h.sent]
      simp [EventStream.batch, hpc]
  | flushDefs batch closed hpc =>
      have hclosing : s.Closing ↔ closed = true := by simp [Closing, hpc]
      refine ⟨?_, fun hc => h.released (hclosing.mpr hc), fun hc => h.drained (hclosing.mpr hc)⟩
      rw [h.sent]
      simp [EventStream.batch, hpc]
  | emitPoints batch hpc =>
      refine ⟨?_, nofun, nofun⟩
      rw [h.sent]
      simp [EventStream.batch, hpc]
  | emitLast batch hpc =>
      have hclosing : s.Closing := by simp [Closing, hpc]
      refine ⟨?_, fun _ => h.released hclosing, fun _ => h.drained hclosing⟩
      rw [h.sent]
      simp [EventStream.batch, hpc]
  | snapshot hpc =>
      have hclosing : s.Closing := by simp [Closing, hpc]
      refine ⟨?_, fun _ => h.released hclosing, fun _ => h.drained hclosing⟩
      rw [h.sent]
      simp [EventStream.batch, hpc]
  | _ => exact ⟨h.sent, h.released, h.drained⟩

/-! ## The drop counters -/

/-- The refused events are the counted drops, in total and for each metric. -/
structure Counted (s : EventStream n F) : Prop where
  total : s.dropState.total = s.postings.refused.length
  metric : ∀ name, (s.dropState.perMetric.find? name).getD 0 =
    s.postings.refused.countP fun x => x.content.metricName = name
  sum : s.dropState.perMetric.total (fun _ => true) id = s.dropState.total

theorem Counted.recordDrop {s : EventStream n F} (h : s.Counted) {p : Fin n}
    {x : StreamSample n F} (hx : s.postings.pending p = some x) :
    Counted { s.setProducer p .idle with
      dropState := s.dropState.recordDrop x.content.metricName
      postings := s.postings.refuse p x hx } := by
  refine ⟨?_, fun name => ?_, ?_⟩
  · simp [DropState.recordDrop, Postings.refuse, h.total]
  · simp only [DropState.recordDrop, Postings.refuse, List.countP_append, ← h.metric name]
    by_cases hname : name = x.content.metricName
    · subst hname
      simp
    · rw [KeyMap.find?_upsert_of_ne _ _ hname]
      simp [Ne.symm hname]
  · have hsum := KeyMap.total_upsert s.dropState.perMetric (fun _ => true) id
      x.content.metricName (fun v => v.getD 0 + 1) 1 rfl fun v => rfl
    simp only [DropState.recordDrop, hsum, h.sum, if_true]

theorem Counted.step {s s' : EventStream n F} {e : Event n F} (h : s.Counted)
    (hmatched : s.Matched) (hflow : s.Flow) (hs : Steps s e s') : s'.Counted := by
  cases hs with
  | vanish p x hx hpc hdone =>
      have hopen : ¬s.Closing := hflow.not_closing hmatched p (by simp [hpc])
      exact absurd (by simp [Closing, hdone]) hopen
  | countDrop p x hx hpc => exact h.recordDrop hx
  | _ => exact ⟨h.total, h.metric, h.sum⟩

/-- The sidecar is the snapshot of the final counters. -/
def Filed (s : EventStream n F) : Prop :=
  ∀ sidecar, s.sidecar = some sidecar → s.writer = .done ∧ sidecar = s.dropState.snapshot

theorem Filed.step {s s' : EventStream n F} {e : Event n F} (h : s.Filed) (hmatched : s.Matched)
    (hflow : s.Flow) (hs : Steps s e s') : s'.Filed := by
  have hquiet : ∀ p, s.producers p ≠ .idle → s.sidecar = none := by
    intro p hp
    cases hsidecar : s.sidecar with
    | none => rfl
    | some sidecar =>
        have hdone := (h sidecar hsidecar).1
        exact absurd (by simp [Closing, hdone]) (hflow.not_closing hmatched p hp)
  have hbusy : s.writer ≠ .done → s.sidecar = none := by
    intro hne
    cases hsidecar : s.sidecar with
    | none => rfl
    | some sidecar => exact absurd (h sidecar hsidecar).1 hne
  intro sidecar hsidecar
  cases hs with
  | observe p hpc => simp [setProducer, hquiet p (by simp [hpc])] at hsidecar
  | countDrop p x hx hpc => simp [setProducer, hquiet p (by simp [hpc])] at hsidecar
  | recv batch x channel hpc hrecv => simp [hbusy (by simp [hpc])] at hsidecar
  | expire batch hpc => simp [hbusy (by simp [hpc])] at hsidecar
  | closed batch hpc hempty hreleased => simp [hbusy (by simp [hpc])] at hsidecar
  | flushDefs batch closed hpc => simp [hbusy (by simp [hpc])] at hsidecar
  | emitPoints batch hpc => simp [hbusy (by simp [hpc])] at hsidecar
  | emitLast batch hpc => simp [hbusy (by simp [hpc])] at hsidecar
  | snapshot hpc => exact ⟨rfl, (Option.some.inj hsidecar).symm⟩
  | _ => exact h sidecar hsidecar

/-! ## The finished stream -/

/-- The invariant of every run. -/
structure Inv (s : EventStream n F) : Prop where
  matched : s.Matched
  flow : s.Flow
  counted : s.Counted
  filed : s.Filed

theorem inv_new (capacity : ℕ) : (new capacity : EventStream n F).Inv where
  matched := ⟨fun _ => ⟨fun _ => rfl, fun _ => rfl⟩, fun _ h => absurd rfl h⟩
  flow := ⟨rfl, nofun, nofun⟩
  counted := ⟨rfl, fun _ => rfl, rfl⟩
  filed := nofun

theorem Inv.step {s s' : EventStream n F} {e : Event n F} (h : s.Inv) (hs : Steps s e s') :
    s'.Inv where
  matched := h.matched.step hs
  flow := h.flow.step h.matched hs
  counted := h.counted.step h.matched h.flow hs
  filed := h.filed.step h.matched h.flow hs

theorem inv_of_run {capacity : ℕ} {es : List (Event n F)} {s : EventStream n F}
    (h : (eventStreamSystem n F capacity).AnyRun es s) : s.Inv :=
  h.invariant (fun _ hs => hs ▸ inv_new capacity) fun _ _ _ hinv _ hs =>
    hinv.step (steps_of_step hs)

/-- When the writer is done no event is open, and every sent event is a point. -/
theorem Inv.idle_of_done {s : EventStream n F} (h : s.Inv) (hdone : s.writer = .done) :
    ∀ p, s.postings.pending p = none := by
  intro p
  rw [h.matched.pending p]
  by_contra hbusy
  exact h.flow.not_closing h.matched p hbusy (by simp [Closing, hdone])

theorem Inv.sent_of_done {s : EventStream n F} (h : s.Inv) (hdone : s.writer = .done) :
    s.postings.sent = points s.output := by
  have hclosing : s.Closing := by simp [Closing, hdone]
  rw [h.flow.sent, h.flow.drained hclosing]
  simp [batch, hdone]

/-- Every recorded event is written or counted as a drop, when the writer has stopped. -/
theorem delivered_of_sidecar {capacity : ℕ} {es : List (Event n F)} {s : EventStream n F}
    {sidecar : DiagnosticsSidecar} (hrun : (eventStreamSystem n F capacity).AnyRun es s)
    (hsidecar : s.sidecar = some sidecar) : s.Delivered sidecar := by
  have hinv := inv_of_run hrun
  obtain ⟨hdone, rfl⟩ := hinv.filed sidecar hsidecar
  have hidle := hinv.idle_of_done hdone
  have hsent := hinv.sent_of_done hdone
  have hlength := s.postings.length_of_idle hidle
  refine ⟨hsent ▸ s.postings.perm_of_idle hidle, fun p => hsent ▸ s.postings.sent_order p,
    hinv.counted.total, hinv.counted.metric, ?_, hinv.counted.sum⟩
  rw [← hsent, hlength]
  exact congrArg (s.postings.sent.length + ·) hinv.counted.total

/-- Two events of one producer through a channel that holds one: the second is dropped. -/
def overflow : List (Event 1 ℕ) :=
  let ev : SinkEvent ℕ := ⟨['a'], .counter, 0, 1, ∅⟩
  [.record 0 ev, .define 0, .observe 0, .send 0, .record 0 ev, .define 0, .observe 0, .send 0,
    .countDrop 0, .release 0, .recv, .closed, .flushDefs, .emitPoints, .snapshot]

theorem overflow_delivered : ∃ s sidecar, (eventStreamSystem 1 ℕ 1).AnyRun overflow s ∧
    s.sidecar = some sidecar ∧ sidecar.total = 1 ∧ s.Delivered sidecar := by
  have hexec : ∃ s, (eventStreamSystem 1 ℕ 1).AnyRun overflow s ∧
      ∃ sidecar ∈ s.sidecar, sidecar.total = 1 :=
    StepSystem.exists_run_of_exec _ rfl (by decide)
  obtain ⟨s, hrun, sidecar, hsidecar, htotal⟩ := hexec
  exact ⟨s, sidecar, hrun, hsidecar, htotal, delivered_of_sidecar hrun hsidecar⟩

end EventStream

end K6Rs
