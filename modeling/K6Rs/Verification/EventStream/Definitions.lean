import K6Rs.Verification.EventStream.Delivery

/-! # The definition of a metric precedes its points

The names that were seen are the ones the stream defines, followed by the queued
definitions; a batch is emitted after the queue that holds its definitions was flushed. -/

namespace K6Rs

namespace EventStream

variable {n : ℕ} {F : Type}

@[simp] theorem defined_append (xs ys : List (StreamLine n F)) :
    defined (xs ++ ys) = defined xs ++ defined ys :=
  List.filterMap_append

@[simp] theorem defined_map_metric (ds : List MetricDef) :
    defined (ds.map .metric : List (StreamLine n F)) = ds.map MetricDef.name := by
  induction ds with
  | nil => rfl
  | cons d ds ih => exact congrArg (d.name :: ·) ih

@[simp] theorem defined_map_point (xs : List (StreamSample n F)) :
    defined (xs.map .point) = [] := by
  induction xs with
  | nil => rfl
  | cons x xs ih => exact ih

/-! ## Definitions before points -/

/-- Every point of the stream follows the definition of its metric. -/
def Preceded (output : List (StreamLine n F)) : Prop :=
  ∀ front x rest, output = front ++ .point x :: rest → x.content.metricName ∈ defined front

theorem Preceded.append {output lines : List (StreamLine n F)} (h : Preceded output)
    (hlines : ∀ x, .point x ∈ lines → x.content.metricName ∈ defined output) :
    Preceded (output ++ lines) := by
  intro front x rest heq
  rcases List.append_eq_append_iff.mp heq with ⟨more, hfront, hrest⟩ | ⟨more, houtput, hrest⟩
  · have hmem : .point x ∈ lines := hrest ▸ (by simp)
    rw [hfront, defined_append]
    exact List.mem_append_left _ (hlines x hmem)
  · cases more with
    | nil =>
        rw [List.nil_append] at hrest
        have hmem : .point x ∈ lines := hrest ▸ (by simp)
        rw [List.append_nil] at houtput
        exact houtput ▸ hlines x hmem
    | cons line more =>
        rw [List.cons_append, List.cons.injEq] at hrest
        exact h front x more (hrest.1 ▸ houtput)

theorem Preceded.metrics {output : List (StreamLine n F)} (h : Preceded output)
    (ds : List MetricDef) : Preceded (output ++ ds.map .metric) :=
  h.append fun x hx => by simp at hx

theorem Preceded.points {output : List (StreamLine n F)} (h : Preceded output)
    {xs : List (StreamSample n F)} (hxs : ∀ x ∈ xs, x.content.metricName ∈ defined output) :
    Preceded (output ++ xs.map .point) :=
  h.append fun x hx => hxs x (by simpa using hx)

/-! ## The table of definitions -/

theorem DefState.mem_seen_define (d : DefState) (ev : SinkEvent F) {name : Str} :
    name ∈ (d.define ev).seen ↔ name = ev.metricName ∨ name ∈ d.seen := by
  rw [DefState.define]
  split
  · rename_i hseen
    constructor
    · exact .inr
    · rintro (rfl | h)
      · exact hseen
      · exact h
  · simp [or_comm]

theorem DefState.nodup_define {d : DefState} (h : d.seen.Nodup) (ev : SinkEvent F) :
    (d.define ev).seen.Nodup := by
  rw [DefState.define]
  split
  · exact h
  · rename_i hnew
    rw [List.nodup_append]
    refine ⟨h, by simp, ?_⟩
    intro a ha b hb hab
    exact hnew (List.mem_singleton.mp hb ▸ hab ▸ ha)

variable [DecidableEq F]

/-- The seen names are the defined ones and then the queued ones, each once; they are names
of recorded events. -/
structure Table (s : EventStream n F) : Prop where
  seen : s.defState.seen = defined s.output ++ s.defState.queue.map MetricDef.name
  nodup : s.defState.seen.Nodup
  recorded : ∀ name ∈ s.defState.seen, name ∈ s.recordedNames

/-- Every event that passed the first part of `try_record` has its name in the table. -/
structure Known (s : EventStream n F) : Prop where
  pending : ∀ p x, s.postings.pending p = some x → s.producers p ≠ .entered →
    x.content.metricName ∈ s.defState.seen
  sent : ∀ x ∈ s.postings.sent, x.content.metricName ∈ s.defState.seen
  refused : ∀ x ∈ s.postings.refused, x.content.metricName ∈ s.defState.seen

/-- The writer has flushed the definitions for the last time. -/
def Flushed (s : EventStream n F) : Prop :=
  match s.writer with
  | .emitting _ closed => closed = true
  | .finishing => True
  | .done => True
  | _ => False

/-- The stream so far, and what the writer is about to emit. -/
structure Ordered (s : EventStream n F) : Prop where
  before : Preceded s.output
  batch : ∀ batch closed, s.writer = .emitting batch closed →
    ∀ x ∈ batch, x.content.metricName ∈ defined s.output
  flushed : s.Flushed → s.defState.queue = []

theorem Flushed.closing {s : EventStream n F} (h : s.Flushed) : s.Closing := by
  unfold Flushed at h
  unfold Closing
  split at h <;> simp_all

theorem Table.step {s s' : EventStream n F} {e : Event n F} (h : s.Table) (hs : Steps s e s') :
    s'.Table := by
  cases hs with
  | record p ev hp hsender =>
      refine ⟨h.seen, h.nodup, fun name hname => ?_⟩
      simp only [recordedNames, Postings.post, List.map_append]
      exact List.mem_append_left _ (h.recorded name hname)
  | define p x hx hpc =>
      refine ⟨?_, DefState.nodup_define h.nodup x.content, fun name hname => ?_⟩
      · simp only [setProducer, DefState.define]
        split
        · exact h.seen
        · simp [h.seen]
      · rcases (DefState.mem_seen_define _ _).mp hname with rfl | hname
        · exact List.mem_map_of_mem (s.postings.mem_log_of_pending hx)
        · exact h.recorded name hname
  | flushDefs batch closed hpc =>
      refine ⟨?_, h.nodup, h.recorded⟩
      simpa using h.seen
  | emitPoints batch hpc =>
      refine ⟨?_, h.nodup, h.recorded⟩
      simpa using h.seen
  | emitLast batch hpc =>
      refine ⟨?_, h.nodup, h.recorded⟩
      simpa using h.seen
  | _ => exact ⟨h.seen, h.nodup, h.recorded⟩

/-- The producer `p` goes on in its call, and the table only grows. -/
theorem Known.move {s s' : EventStream n F} (h : s.Known) (p : Fin n) {pc : RecordPc}
    (hproducers : s'.producers = Function.update s.producers p pc)
    (hpostings : s'.postings = s.postings)
    (hseen : ∀ name ∈ s.defState.seen, name ∈ s'.defState.seen)
    (hp : ∀ x, s.postings.pending p = some x → x.content.metricName ∈ s'.defState.seen) :
    s'.Known := by
  constructor
  · intro q x hx hpc
    rw [hpostings] at hx
    by_cases hq : q = p
    · exact hp x (hq ▸ hx)
    · rw [hproducers, Function.update_of_ne hq] at hpc
      exact hseen _ (h.pending q x hx hpc)
  · rw [hpostings]
    exact fun x hx => hseen _ (h.sent x hx)
  · rw [hpostings]
    exact fun x hx => hseen _ (h.refused x hx)

/-- The call of the producer `p` ends. -/
theorem Known.settled {s s' : EventStream n F} (h : s.Known) (p : Fin n)
    (hproducers : s'.producers = Function.update s.producers p .idle)
    (hpending : s'.postings.pending = Function.update s.postings.pending p none)
    (hseen : s'.defState.seen = s.defState.seen) (q : Fin n) (x : StreamSample n F)
    (hx : s'.postings.pending q = some x) (hpc : s'.producers q ≠ .entered) :
    x.content.metricName ∈ s'.defState.seen := by
  by_cases hq : q = p
  · rw [hpending, hq, Function.update_self] at hx
    cases hx
  · rw [hpending, Function.update_of_ne hq] at hx
    rw [hproducers, Function.update_of_ne hq] at hpc
    exact hseen ▸ h.pending q x hx hpc

theorem Known.refuse {s s' : EventStream n F} (h : s.Known) {p : Fin n} {x : StreamSample n F}
    (hx : s.postings.pending p = some x) (hpc : s.producers p ≠ .entered)
    (hproducers : s'.producers = Function.update s.producers p .idle)
    (hpostings : s'.postings = s.postings.refuse p x hx)
    (hseen : s'.defState.seen = s.defState.seen) : s'.Known := by
  refine ⟨h.settled p hproducers (hpostings ▸ rfl) hseen, ?_, ?_⟩
  · rw [hpostings, hseen]
    exact h.sent
  · rw [hpostings, hseen]
    intro y hy
    rcases List.mem_append.mp hy with hy | hy
    · exact h.refused y hy
    · rw [List.mem_singleton.mp hy]
      exact h.pending p x hx hpc

theorem Known.step {s s' : EventStream n F} {e : Event n F} (h : s.Known) (hs : Steps s e s') :
    s'.Known := by
  cases hs with
  | record p ev hp hsender =>
      refine ⟨fun q x hx hpc => ?_, h.sent, h.refused⟩
      have hq : q ≠ p := by
        rintro rfl
        simp [setProducer] at hpc
      simp only [setProducer, Postings.post, Function.update_of_ne hq] at hx hpc
      exact h.pending q x hx hpc
  | define p x hx hpc =>
      refine h.move p rfl rfl (fun name hname => ?_) fun y hy => ?_
      · exact (DefState.mem_seen_define _ _).mpr (.inr hname)
      · rw [hx] at hy
        cases hy
        exact (DefState.mem_seen_define _ _).mpr (.inl rfl)
  | observe p hpc =>
      exact h.move p rfl rfl (fun _ => id) fun y hy => h.pending p y hy (by simp [hpc])
  | bounce p hpc =>
      exact h.move p rfl rfl (fun _ => id) fun y hy => h.pending p y hy (by simp [hpc])
  | send p x channel hx hpc hsend =>
      refine ⟨h.settled p rfl rfl rfl, fun y hy => ?_, h.refused⟩
      rcases List.mem_append.mp hy with hy | hy
      · exact h.sent y hy
      · rw [List.mem_singleton.mp hy]
        exact h.pending p x hx (by simp [hpc])
  | vanish p x hx hpc hdone => exact h.refuse hx (by simp [hpc]) rfl rfl rfl
  | countDrop p x hx hpc => exact h.refuse hx (by simp [hpc]) rfl rfl rfl
  | _ => exact ⟨h.pending, h.sent, h.refused⟩

theorem mem_defined_of_batch {s : EventStream n F} (htable : s.Table) (hknown : s.Known)
    (hflow : s.Flow) {x : StreamSample n F} (hx : x ∈ s.batch) :
    x.content.metricName ∈ defined s.output ++ s.defState.queue.map MetricDef.name := by
  rw [← htable.seen]
  apply hknown.sent
  rw [hflow.sent]
  simp [hx]

theorem Ordered.step {s s' : EventStream n F} {e : Event n F} (h : s.Ordered)
    (htable : s.Table) (hknown : s.Known) (hmatched : s.Matched) (hflow : s.Flow)
    (hs : Steps s e s') : s'.Ordered := by
  cases hs with
  | define p x hx hpc =>
      have hopen : ¬s.Closing := hflow.not_closing hmatched p (by simp [hpc])
      exact ⟨h.before, h.batch, fun hf => absurd (Flushed.closing (s := s) hf) hopen⟩
  | recv batch x channel hpc hrecv => exact ⟨h.before, by rintro _ _ ⟨⟩, by rintro ⟨⟩⟩
  | expire batch hpc => exact ⟨h.before, by rintro _ _ ⟨⟩, by rintro ⟨⟩⟩
  | closed batch hpc hempty hreleased => exact ⟨h.before, by rintro _ _ ⟨⟩, by rintro ⟨⟩⟩
  | flushDefs batch closed hpc =>
      refine ⟨h.before.metrics _, fun batch' closed' hpc' x hx => ?_, fun _ => rfl⟩
      cases hpc'
      rw [defined_append, defined_map_metric]
      exact mem_defined_of_batch htable hknown hflow (by simpa [EventStream.batch, hpc] using hx)
  | emitPoints batch hpc =>
      exact ⟨h.before.points (h.batch batch false hpc), by rintro _ _ ⟨⟩, by rintro ⟨⟩⟩
  | emitLast batch hpc =>
      have hflushed : s.Flushed := by simp [Flushed, hpc]
      exact ⟨h.before.points (h.batch batch true hpc), by rintro _ _ ⟨⟩,
        fun _ => h.flushed hflushed⟩
  | snapshot hpc =>
      have hflushed : s.Flushed := by simp [Flushed, hpc]
      exact ⟨h.before, by rintro _ _ ⟨⟩, fun _ => h.flushed hflushed⟩
  | _ => exact ⟨h.before, h.batch, h.flushed⟩

/-! ## The finished stream -/

/-- The invariant of the definitions in every run. -/
structure Defining (s : EventStream n F) : Prop where
  table : s.Table
  known : s.Known
  ordered : s.Ordered

theorem defining_new (capacity : ℕ) : (new capacity : EventStream n F).Defining where
  table := ⟨rfl, .nil, nofun⟩
  known := ⟨nofun, nofun, nofun⟩
  ordered := ⟨fun front x rest h => by simp [new] at h, nofun, nofun⟩

theorem defining_of_run {capacity : ℕ} {es : List (Event n F)} {s : EventStream n F}
    (h : (eventStreamSystem n F capacity).AnyRun es s) : s.Inv ∧ s.Defining := by
  refine h.invariant (I := fun s => s.Inv ∧ s.Defining) ?_ ?_
  · rintro s rfl
    exact ⟨inv_new capacity, defining_new capacity⟩
  · intro s e s' hinv _ hs
    obtain ⟨hinv, hdef⟩ := hinv
    have hsteps := steps_of_step hs
    exact ⟨hinv.step hsteps, hdef.table.step hsteps, hdef.known.step hsteps,
      hdef.ordered.step hdef.table hdef.known hinv.matched hinv.flow hsteps⟩

/-- The names the finished stream defines are the recorded ones. -/
theorem Defining.mem_defined_iff {s : EventStream n F} (h : s.Defining) (hinv : s.Inv)
    (hdone : s.writer = .done) (name : Str) :
    name ∈ defined s.output ↔ name ∈ s.recordedNames := by
  have hflushed : s.Flushed := by simp [Flushed, hdone]
  have hseen := h.table.seen
  rw [h.ordered.flushed hflushed, List.map_nil, List.append_nil] at hseen
  rw [← hseen]
  constructor
  · exact h.table.recorded name
  · intro hname
    obtain ⟨x, hx, rfl⟩ := List.mem_map.mp hname
    rw [← (s.postings.perm_of_idle (hinv.idle_of_done hdone)).mem_iff] at hx
    rcases List.mem_append.mp hx with hx | hx
    · exact h.known.sent x hx
    · exact h.known.refused x hx

/-- The finished stream defines each recorded metric once, before its first point. -/
theorem wellDefined_of_done {capacity : ℕ} {es : List (Event n F)} {s : EventStream n F}
    (hrun : (eventStreamSystem n F capacity).AnyRun es s) (hdone : s.writer = .done) :
    WellDefined s.output s.recordedNames := by
  obtain ⟨hinv, hdef⟩ := defining_of_run hrun
  have hnodup : (defined s.output).Nodup := by
    have hseen := hdef.table.nodup
    rw [hdef.table.seen] at hseen
    exact hseen.of_append_left
  refine ⟨fun name => ?_, hdef.ordered.before⟩
  rw [hnodup.count]
  simp only [hdef.mem_defined_iff hinv hdone name]

theorem overflow_wellDefined : ∃ s, (eventStreamSystem 1 ℕ 1).AnyRun overflow s ∧
    s.writer = .done ∧ WellDefined s.output s.recordedNames := by
  have hexec : ∃ s, (eventStreamSystem 1 ℕ 1).AnyRun overflow s ∧ s.writer = .done :=
    StepSystem.exists_run_of_exec _ rfl (by decide)
  obtain ⟨s, hrun, hdone⟩ := hexec
  exact ⟨s, hrun, hdone, wellDefined_of_done hrun hdone⟩

end EventStream

end K6Rs
