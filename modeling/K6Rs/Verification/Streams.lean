import K6Rs.Model.Streams

/-! # What a pipe delivers

A pull that enqueues nothing makes the reader return an undefined value that is not the end. -/

namespace K6Rs

variable {α τ : Type}

/-! ## Sources -/

/-- A call of a function of the source that enqueues chunks, and closes the stream after them if it
is the last. -/
def IsBatch (last : Prop) (chunks : List (Option α)) (ops : List (ControllerOp α)) : Prop :=
  (¬last ∧ ops = chunks.map .enqueue) ∨
    last ∧ ∃ again, ops = chunks.map .enqueue ++ .close :: List.replicate again .close

/-- The pulls from the `n`-th on enqueue these batches of chunks, and the last of them closes the
stream. -/
def PullsFrom (pull : ℕ → List (ControllerOp α)) (n : ℕ) : List (List (Option α)) → Prop
  | [] => True
  | batch :: rest => IsBatch (rest = []) batch (pull n) ∧ PullsFrom pull (n + 1) rest

/-- The source enqueues `first` at its start and then a batch in each pull, and closes with the last
of them. -/
def UnderlyingSource.Enqueues (source : UnderlyingSource α) (first : List (Option α))
    (batches : List (List (Option α))) : Prop :=
  IsBatch (batches = []) first source.start ∧
    (batches ≠ [] → ∃ pull, source.pull = some pull ∧ PullsFrom pull 0 batches)

/-- The stream is piped to its end: a sink is called with the chunks in their order and then closed,
and a transform that does nothing hands them on. -/
structure PipesAll (stream : ReadableStream α) (chunks : List (Option α)) : Prop where
  toSink : ∃ fuel readable writable,
    pipeTo fuel stream (.new (recordingSink α) []) = some (.ok (), readable, writable) ∧
      writable.state = chunks.map .write ++ [.close]
  throughIdentity : ∃ fuel readable,
    pipeThroughIdentity fuel stream = some (.ok readable) ∧
      readable.queue = chunks ∧ readable.closed = true

/-- What the batches of the pulls come to: an empty one that is not the last gives an undefined
value. -/
def deliveredBatches : List (List (Option α)) → List (Option α)
  | [] => []
  | [batch] => batch
  | [] :: rest => none :: deliveredBatches rest
  | (chunk :: chunks) :: rest => chunk :: chunks ++ deliveredBatches rest

/-! ## Readers -/

namespace ReadableStream

variable {stream : ReadableStream α}

theorem controlAll_enqueues (hopen : stream.closeRequested = false) (chunks : List (Option α))
    (ops : List (ControllerOp α)) :
    stream.controlAll (chunks.map .enqueue ++ ops) =
      { stream with queue := stream.queue ++ chunks }.controlAll ops := by
  induction chunks generalizing stream with
  | nil => simp
  | cons chunk chunks ih =>
      rw [List.map_cons, List.cons_append, controlAll, control, if_neg (by simp [hopen])]
      simp only
      have hrest :=
        ih (show { stream with queue := stream.queue ++ [chunk] }.closeRequested = false from hopen)
      rw [hrest]
      simp

theorem controlAll_closes (again : ℕ) :
    stream.controlAll (.close :: List.replicate again .close) =
      (.ok (), { stream with closeRequested := true, closed := true }) := by
  induction again generalizing stream with
  | zero => rfl
  | succ again ih =>
      rw [List.replicate_succ, controlAll]
      exact ih

/-- What a call of the source leaves of a stream that is open. -/
theorem controlAll_batch {last : Prop} [Decidable last] {chunks : List (Option α)}
    {ops : List (ControllerOp α)} (h : IsBatch last chunks ops)
    (hopen : stream.closeRequested = false) (hclosed : stream.closed = false) :
    stream.controlAll ops = (.ok (), { stream with
      queue := stream.queue ++ chunks
      closed := decide last
      closeRequested := decide last }) := by
  rcases h with ⟨hlast, rfl⟩ | ⟨hlast, again, rfl⟩
  · rw [← List.append_nil (chunks.map ControllerOp.enqueue), controlAll_enqueues hopen,
      decide_eq_false hlast]
    cases stream
    cases hopen
    cases hclosed
    rfl
  · rw [controlAll_enqueues hopen, controlAll_closes, decide_eq_true hlast]

/-- The stream has these batches to come. -/
structure Awaits (stream : ReadableStream α) (batches : List (List (Option α))) : Prop where
  errored : stream.errored = none
  closed : stream.closed = decide (batches = [])
  closeRequested : stream.closeRequested = decide (batches = [])
  pulls : batches ≠ [] → ∃ pull, stream.pullFn = some pull ∧ PullsFrom pull stream.pulls batches

theorem new_awaits {source : UnderlyingSource α} {first : List (Option α)}
    {batches : List (List (Option α))}
    (h : source.Enqueues first batches) :
    ∃ stream : ReadableStream α, new source = (.ok (), stream) ∧ stream.queue = first ∧
      stream.locked = false ∧ stream.Awaits batches := by
  refine ⟨_, controlAll_batch h.1 rfl rfl, rfl, rfl, ⟨rfl, rfl, rfl, ?_⟩⟩
  intro hbatches
  exact h.2 hbatches

theorem Awaits.withQueue {batches : List (List (Option α))} (h : stream.Awaits batches)
    (queue : List (Option α)) : { stream with queue }.Awaits batches :=
  ⟨h.errored, h.closed, h.closeRequested, h.pulls⟩

theorem read_of_queue {value : Option α} {queue : List (Option α)}
    (herrored : stream.errored = none)
    (hqueue : stream.queue = value :: queue) :
    stream.read = (.ok ⟨value, false⟩, { stream with queue }) := by
  simp only [read, herrored, hqueue]

theorem Awaits.read_nil (h : stream.Awaits []) (hqueue : stream.queue = []) :
    stream.read = (.ok ⟨none, true⟩, stream) := by
  simp only [read, h.errored, hqueue, h.closed, decide_true, if_true]

theorem read_of_pull {pull : ℕ → List (ControllerOp α)} {next : ReadableStream α}
    (herrored : stream.errored = none) (hqueue : stream.queue = [])
      (hclosed : stream.closed = false)
    (hpull : stream.pullFn = some pull)
    (hcall : { stream with pulls := stream.pulls + 1 }.controlAll (pull stream.pulls) =
      (.ok (), next)) :
    stream.read = match next.queue with
      | value :: queue => (.ok ⟨value, false⟩, { next with queue })
      | [] => (.ok ⟨none, next.closed⟩, next) := by
  obtain ⟨queue, closed, closeRequested, errored, locked, pullFn, pulls⟩ := stream
  subst herrored hqueue hclosed hpull
  simp only [read, Bool.false_eq_true, if_false]
  cases next with
  | mk nextQueue _ _ _ _ _ _ => cases nextQueue <;> simp only [hcall]

/-- A read of an empty queue returns what one pull makes of it. -/
theorem Awaits.read_cons {batch : List (Option α)} {rest : List (List (Option α))}
    (h : stream.Awaits (batch :: rest)) (hqueue : stream.queue = []) :
    ∃ next : ReadableStream α, next.Awaits rest ∧ next.queue = batch.tail ∧
      stream.read = (.ok ⟨batch.head?.join, batch.isEmpty && decide (rest = [])⟩, next) := by
  obtain ⟨pull, hpull, hbatch, hrest⟩ := h.pulls (List.cons_ne_nil _ _)
  have hclosed : stream.closed = false := h.closed
  have hread := read_of_pull h.errored hqueue hclosed hpull
    (controlAll_batch hbatch (show { stream with pulls := _ }.closeRequested = false from
      h.closeRequested) hclosed)
  rw [hqueue] at hread
  have hawaits (queue : List (Option α)) : ({ stream with
      queue
      pulls := stream.pulls + 1
      closed := decide (rest = [])
      closeRequested := decide (rest = []) } : ReadableStream α).Awaits rest :=
    ⟨h.errored, rfl, rfl, fun _ => ⟨pull, hpull, hrest⟩⟩
  cases batch with
  | nil =>
      exact ⟨_, hawaits [], rfl, hread⟩
  | cons value chunks =>
      exact ⟨_, hawaits chunks, rfl, hread⟩

end ReadableStream

theorem deliveredBatches_cons_cons (chunk : Option α) (chunks : List (Option α))
    (rest : List (List (Option α))) :
    deliveredBatches ((chunk :: chunks) :: rest) = chunk :: chunks ++ deliveredBatches rest := by
  cases rest with
  | nil => simp [deliveredBatches]
  | cons _ _ => rfl

theorem deliveredBatches_nil_cons_cons (next : List (Option α)) (rest : List (List (Option α))) :
    deliveredBatches ([] :: next :: rest) = none :: deliveredBatches (next :: rest) := rfl

/-! ## The loop -/

section Loop

variable {readable : ReadableStream α} {writable : WritableStream α τ}

/-- The stream after these writes. -/
def WritableStream.writeAll (writable : WritableStream α τ) (chunks : List (Option α)) :
    WritableStream α τ :=
  { writable with state := chunks.foldl writable.sink.write writable.state }

theorem WritableStream.write_of_open (hopen : writable.closed = false) (chunk : Option α) :
    writable.write chunk = .ok (writable.writeAll [chunk]) := by
  rw [write, if_neg (by simp [hopen])]
  rfl

theorem pipeLoop_write {fuel : ℕ} {value : Option α} {next : ReadableStream α}
    (hread : readable.read = (.ok ⟨value, false⟩, next)) (hopen : writable.closed = false) :
    pipeLoop (fuel + 1) readable writable = pipeLoop fuel next (writable.writeAll [value]) := by
  rw [pipeLoop, hread]
  simp [WritableStream.write_of_open hopen]

theorem pipeLoop_done {fuel : ℕ} {value : Option α} {next : ReadableStream α}
    (hread : readable.read = (.ok ⟨value, true⟩, next)) :
    pipeLoop (fuel + 1) readable writable = some (.ok (), next, writable) := by
  rw [pipeLoop, hread]
  simp

/-- The loop writes what is queued. -/
theorem pipeLoop_queue (fuel : ℕ) (queue : List (Option α)) (hqueue : readable.queue = queue)
    (herrored : readable.errored = none) (hopen : writable.closed = false) :
    pipeLoop (fuel + queue.length) readable writable =
      pipeLoop fuel { readable with queue := [] } (writable.writeAll queue) := by
  induction queue generalizing readable writable with
  | nil =>
      cases readable
      cases hqueue
      rfl
  | cons value queue ih =>
      have hread := ReadableStream.read_of_queue herrored hqueue
      have hnext : (writable.writeAll [value]).closed = false := hopen
      have herroredNext : { readable with queue }.errored = none := herrored
      have hrest := ih rfl herroredNext hnext
      rw [List.length_cons, ← Nat.add_assoc, pipeLoop_write hread hopen, hrest]
      rfl

/-- The loop ends after the last batch. -/
theorem pipeLoop_awaits {batches : List (List (Option α))} (h : readable.Awaits batches)
    (hopen : writable.closed = false) :
    ∃ fuel next, pipeLoop fuel readable writable =
      some (.ok (), next, writable.writeAll (readable.queue ++ deliveredBatches batches)) := by
  induction batches generalizing readable writable with
  | nil =>
      have hread := (h.withQueue []).read_nil rfl
      refine ⟨1 + readable.queue.length, { readable with queue := [] }, ?_⟩
      rw [pipeLoop_queue 1 _ rfl h.errored hopen, pipeLoop_done hread, deliveredBatches,
        List.append_nil]
  | cons batch rest ih =>
      obtain ⟨next, hawaits, hqueue, hread⟩ := (h.withQueue []).read_cons rfl
      have hwritten : (writable.writeAll readable.queue).closed = false := hopen
      suffices hlast : ∃ fuel last, pipeLoop fuel { readable with queue := [] }
          (writable.writeAll readable.queue) =
            some (.ok (), last, (writable.writeAll readable.queue).writeAll (deliveredBatches
              (batch :: rest))) by
        obtain ⟨fuel, last, hloop⟩ := hlast
        refine ⟨fuel + readable.queue.length, last, ?_⟩
        rw [pipeLoop_queue fuel _ rfl h.errored hopen, hloop, WritableStream.writeAll,
          WritableStream.writeAll, WritableStream.writeAll, List.foldl_append]
      cases batch with
      | cons value chunks =>
          have hnext : ((writable.writeAll readable.queue).writeAll [value]).closed = false := hopen
          obtain ⟨fuel, last, hloop⟩ := ih hawaits hnext
          refine ⟨fuel + 1, last, ?_⟩
          rw [pipeLoop_write hread hwritten]
          simp only [List.head?_cons, Option.join_some]
          rw [hloop, hqueue, deliveredBatches_cons_cons]
          rfl
      | nil =>
          cases rest with
          | nil => exact ⟨1, next, pipeLoop_done hread⟩
          | cons batch rest =>
              have hnext : ((writable.writeAll readable.queue).writeAll [none]).closed = false :=
                hopen
              obtain ⟨fuel, last, hloop⟩ := ih hawaits hnext
              have hundefined : { readable with queue := [] }.read = (.ok ⟨none, false⟩, next) :=
                hread
              refine ⟨fuel + 1, last, ?_⟩
              rw [pipeLoop_write hundefined hwritten, hloop, hqueue]
              rfl

/-- More fuel changes nothing. -/
theorem pipeLoop_mono {fuel : ℕ} (more : ℕ) {result}
    (h : pipeLoop fuel readable writable = some result) :
    pipeLoop (fuel + more) readable writable = some result := by
  induction fuel generalizing readable writable with
  | zero => nomatch h
  | succ fuel ih =>
      rw [Nat.add_right_comm]
      simp only [pipeLoop] at h ⊢
      split at h
      · exact h
      · split at h
        · rename_i hdone
          rw [if_pos hdone]
          exact h
        · rename_i hdone
          rw [if_neg hdone]
          split at h
          · exact h
          · exact ih h

theorem pipeLoop_unique {fuel fuel' : ℕ} {result result'}
    (h : pipeLoop fuel readable writable = some result)
    (h' : pipeLoop fuel' readable writable = some result') : result = result' := by
  have hmore := pipeLoop_mono fuel' h
  rw [Nat.add_comm, pipeLoop_mono fuel h'] at hmore
  exact Option.some.inj hmore.symm

theorem pipeTo_of_none {fuel : ℕ} (hreadable : readable.locked = false)
    (hwritable : writable.locked = false)
    (h : pipeLoop fuel { readable with locked := true } { writable with locked := true } = none) :
    pipeTo fuel readable writable = none := by
  rw [pipeTo, if_neg (by simp [hreadable]), if_neg (by simp [hwritable]), h]

theorem pipeTo_of_ok {fuel : ℕ} {lastReadable : ReadableStream α}
    {lastWritable : WritableStream α τ}
    (hreadable : readable.locked = false) (hwritable : writable.locked = false)
    (h : pipeLoop fuel { readable with locked := true } { writable with locked := true } =
      some (.ok (), lastReadable, lastWritable)) :
    pipeTo fuel readable writable =
      some (.ok (), { lastReadable with locked := false }, lastWritable.close) := by
  rw [pipeTo, if_neg (by simp [hreadable]), if_neg (by simp [hwritable]), h]

/-- The only result of a pipe. -/
theorem exists_pipeTo_iff {batches : List (List (Option α))} (h : readable.Awaits batches)
    (hreadable : readable.locked = false) (hopen : writable.closed = false)
      (hwritable : writable.locked = false) :
    ∃ next : ReadableStream α, ∀ result, (∃ fuel, pipeTo fuel readable writable = some result) ↔
      result = (.ok (), next, ({ writable with locked := true }.writeAll
        (readable.queue ++ deliveredBatches batches)).close) := by
  have hlocked : { readable with locked := true }.Awaits batches :=
    ⟨h.errored, h.closed, h.closeRequested, h.pulls⟩
  have hlockedOpen : ({ writable with locked := true } : WritableStream α τ).closed = false := hopen
  obtain ⟨fuel, last, hloop⟩ := pipeLoop_awaits hlocked hlockedOpen
  refine ⟨{ last with locked := false }, fun result => ⟨?_, ?_⟩⟩
  · rintro ⟨fuel', h'⟩
    cases hresult : pipeLoop fuel' { readable with locked := true } { writable with locked :=
      true } with
    | none =>
        rw [pipeTo_of_none hreadable hwritable hresult] at h'
        nomatch h'
    | some other =>
        cases pipeLoop_unique hloop hresult
        rw [pipeTo_of_ok hreadable hwritable hresult] at h'
        exact (Option.some.inj h').symm
  · rintro rfl
    exact ⟨fuel, pipeTo_of_ok hreadable hwritable hloop⟩

end Loop

theorem length_deliveredBatches (batches : List (List (Option α))) :
    (deliveredBatches batches).length =
    batches.flatten.length + batches.dropLast.countP (· = []) := by
  induction batches with
  | nil => rfl
  | cons batch rest ih =>
      cases rest with
      | nil => simp [deliveredBatches]
      | cons next rest =>
          rw [List.flatten_cons, List.length_append, List.dropLast_cons_cons, List.countP_cons]
          cases batch with
          | nil =>
              rw [deliveredBatches_nil_cons_cons, List.length_cons, ih]
              simp
              omega
          | cons chunk chunks =>
              rw [deliveredBatches_cons_cons, List.length_append, ih]
              simp
              omega

/-- The batches deliver their chunks exactly when only the last may be empty. -/
theorem deliveredBatches_eq_flatten_iff (batches : List (List (Option α))) :
    deliveredBatches batches = batches.flatten ↔ ∀ batch ∈ batches.dropLast, batch ≠ [] := by
  constructor
  · intro heq batch hbatch hempty
    have hlength := length_deliveredBatches batches
    have hpos : 0 < batches.dropLast.countP (· = []) :=
      List.countP_pos_iff.mpr ⟨batch, hbatch, by simp [hempty]⟩
    rw [heq] at hlength
    omega
  · intro hnonempty
    induction batches with
    | nil => rfl
    | cons batch rest ih =>
        cases rest with
        | nil => simp [deliveredBatches]
        | cons next rest =>
            rw [List.dropLast_cons_cons, List.forall_mem_cons] at hnonempty
            have hrest := ih hnonempty.2
            cases batch with
            | nil => exact absurd rfl hnonempty.1
            | cons chunk chunks =>
                rw [deliveredBatches_cons_cons, hrest]
                rfl

/-! ## Pipes -/

theorem foldl_recordingSink (calls : List (SinkCall α)) (chunks : List (Option α)) :
    chunks.foldl (recordingSink α).write calls = calls ++ chunks.map .write := by
  induction chunks generalizing calls with
  | nil => simp
  | cons chunk chunks ih =>
      rw [List.foldl_cons, ih]
      simp [recordingSink]

theorem foldl_identitySink (readable : ReadableStream α) (chunks : List (Option α)) :
    chunks.foldl (identitySink α).write readable =
    { readable with queue := readable.queue ++ chunks } := by
  induction chunks generalizing readable with
  | nil => simp
  | cons chunk chunks ih =>
      rw [List.foldl_cons, ih]
      simp [identitySink]

/-- A pipe delivers the queued chunks and the batches as they come, and nothing else. -/
theorem pipesAll_iff_delivered {stream : ReadableStream α} {batches : List (List (Option α))}
    (h : stream.Awaits batches) (hlocked : stream.locked = false) (chunks : List (Option α)) :
    PipesAll stream chunks ↔ stream.queue ++ deliveredBatches batches = chunks := by
  have hopenSink : (WritableStream.new (recordingSink α) []).closed = false := rfl
  have hopenTransform : (WritableStream.new (identitySink α) (.empty none)).closed = false := rfl
  obtain ⟨next, hsink⟩ := exists_pipeTo_iff h hlocked hopenSink rfl
  obtain ⟨next', htransform⟩ := exists_pipeTo_iff h hlocked hopenTransform rfl
  have hcalls := foldl_recordingSink [] (stream.queue ++ deliveredBatches batches)
  constructor
  · intro hall
    obtain ⟨fuel, readable, writable, hpipe, hstate⟩ := hall.toSink
    cases (hsink _).mp ⟨fuel, hpipe⟩
    have hwritten := (congrArg (· ++ [SinkCall.close]) hcalls).symm.trans hstate
    rw [List.nil_append, List.append_left_inj] at hwritten
    exact List.map_injective_iff.mpr (fun _ _ => SinkCall.write.inj) hwritten
  · intro hchunks
    obtain ⟨fuel, hpipe⟩ := (hsink _).mpr rfl
    obtain ⟨fuel', hpipe'⟩ := (htransform _).mpr rfl
    constructor
    · refine ⟨fuel, _, _, hpipe, ?_⟩
      rw [← hchunks]
      exact congrArg (· ++ [SinkCall.close]) hcalls
    · refine ⟨fuel', { ReadableStream.empty none with queue := chunks, closed := true }, ?_, rfl,
        rfl⟩
      rw [pipeThroughIdentity, hpipe', hchunks]
      simp only [WritableStream.writeAll, WritableStream.close, WritableStream.new,
        foldl_identitySink]
      rfl

/-- A source is piped to its end, chunk by chunk, exactly when no pull but the last enqueues
nothing. -/
theorem pipesAll_iff {source : UnderlyingSource α} {first : List (Option α)}
    {batches : List (List (Option α))}
    (h : source.Enqueues first batches) :
    ∃ stream, ReadableStream.new source = (.ok (), stream) ∧
      (PipesAll stream (first ++ batches.flatten) ↔ ∀ batch ∈ batches.dropLast, batch ≠ []) := by
  obtain ⟨stream, hnew, hqueue, hlocked, hawaits⟩ := ReadableStream.new_awaits h
  refine ⟨stream, hnew, ?_⟩
  rw [pipesAll_iff_delivered hawaits hlocked, hqueue, List.append_right_inj,
    deliveredBatches_eq_flatten_iff]

/-- A source of one chunk from its start and two from its pulls, and its stream. -/
theorem pipesAll_counting :
    ∃ stream, ReadableStream.new
        (⟨[.enqueue (some 1)], some fun n => if n = 0 then
          [.enqueue (some 2)] else [.enqueue (some 3), .close]⟩ :
          UnderlyingSource ℕ) = (.ok (), stream) ∧
      (PipesAll stream ([some 1] ++ [[some 2], [some 3]].flatten) ↔
        ∀ batch ∈ ([[some 2], [some 3]] : List (List (Option ℕ))).dropLast, batch ≠ []) :=
  pipesAll_iff ⟨.inl ⟨by simp, rfl⟩, fun _ =>
    ⟨_, rfl, .inl ⟨by simp, rfl⟩, .inr ⟨rfl, 0, rfl⟩, trivial⟩⟩

/-- A source without chunks delivers an undefined value when its first pull leaves the stream
open. -/
theorem not_pipesAll_emptyPull :
    ¬∀ (source : UnderlyingSource ℕ) (first : List (Option ℕ)) (batches : List (List (Option ℕ))),
      source.Enqueues first batches →
        ∃ stream, ReadableStream.new source = (.ok (), stream) ∧
        PipesAll stream (first ++ batches.flatten) := by
  intro hall
  have henqueues :
      (⟨[], some fun n => if n = 0 then [] else [.close]⟩ : UnderlyingSource ℕ).Enqueues []
        [[], []] :=
    ⟨.inl ⟨by simp, rfl⟩, fun _ => ⟨_, rfl, .inl ⟨by simp, rfl⟩, .inr ⟨rfl, 0, rfl⟩, trivial⟩⟩
  obtain ⟨stream, hnew, hpipes⟩ := hall _ _ _ henqueues
  obtain ⟨stream', hnew', hqueue, hlocked, hawaits⟩ := ReadableStream.new_awaits henqueues
  cases hnew.symm.trans hnew'
  rw [pipesAll_iff_delivered hawaits hlocked, hqueue] at hpipes
  nomatch hpipes

end K6Rs
