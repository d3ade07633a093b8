import K6Rs.Model.Coroutine

/-! The steps of a coroutine VU as rules. -/

namespace K6Rs

namespace Coroutine

variable {μ ρ : Type}

@[simp] theorem yield_pc (s : Coroutine μ ρ) (pc : CoroutinePc μ ρ) : (s.yield pc).pc = pc := rfl

/-- The steps as rules, each with the state it leads to. -/
inductive Steps (s : Coroutine μ ρ) : CoroutineEvent μ ρ → Coroutine μ ρ → Prop where
  | fireHard : Steps s .fireHard { s with hard := true }
  | first {go} : s.pc = .fresh → Steps s (.next go) { s with pc := .script .init, sig := go }
  | grant : s.pc = .boundary → Steps s (.next true) { s with pc := .starting, sig := true }
  | decline : s.pc = .boundary → Steps s (.next false) { s with pc := .returned, sig := false }
  | register {site md} : s.pc = .script site → Steps s (.register md) (s.register site md)
  | awaitOne {site} : s.pc = .script site → Steps s .awaitOne (s.yield (.awaitOne site))
  | awaitAll {site metas} : s.pc = .script site →
      Steps s (.awaitAll metas) (s.yield (.awaitAll site (.new metas)))
  /-- A future completes while the coroutine is parked on a synchronous operation. -/
  | queue {op res} : op ∈ s.pending →
      (∃ site, s.pc = .awaitOne site) ∨ (∃ site batch, s.pc = .awaitAll site batch) →
      Steps s (.complete op res) (s.queue op res)
  /-- A future completes while the driver loop waits for one. -/
  | wake {op res} : op ∈ s.pending → s.pc = .awaitPending →
      Steps s (.complete op res) { s.queue op res with pc := .draining }
  | opDone {site} : s.pc = .awaitOne site → Steps s .opDone { s with pc := .script site }
  | batchDone {site batch batch' i res} : s.pc = .awaitAll site batch →
      batch.done i res = some batch' →
      Steps s (.batchDone i res) { s with pc := .awaitAll site batch' }
  | batchResume {site batch out} : s.pc = .awaitAll site batch → batch.remaining = 0 →
      batch.output = some out → Steps s .batchResume { s with pc := .script site }
  | batchPanic {site batch} : s.pc = .awaitAll site batch → batch.remaining = 0 →
      batch.output = none → Steps s .batchResume { s with pc := .panicked }
  | initEnd : s.pc = .script .init →
      Steps s .initEnd { s with pc := if s.sig then .starting else .returned }
  | start : s.pc = .starting → Steps s .start s.start
  | entryCut : s.pc = .calling → s.hard = true → Steps s .entryCut { s with pc := .draining }
  | noExec : s.pc = .calling →
      Steps s .noExec { s with pc := .draining, globals := Globals.clear.succeed "undefined" }
  | call : s.pc = .calling → Steps s .call { s with pc := .script .exec, globals := .clear }
  | execReturn {value} : s.pc = .script .exec →
      Steps s (.execReturn value)
        { s with
          pc := .script (.returned value)
          history := { s.history with fate := some (.fulfilled value) } }
  | execThrow {error} : s.pc = .script .exec →
      Steps s (.execThrow error)
        { s with
          pc := .script (.caught error)
          history := { s.history with fate := some (.failed error) } }
  | execPromise : s.pc = .script .exec → Steps s .execPromise { s with pc := .chaining }
  | execCut : s.pc = .script .exec → s.hard = true → Steps s .execCut { s with pc := .draining }
  /-- A conversion is cut off. -/
  | convertCut : (∃ value, s.pc = .script (.returned value)) ∨
        (∃ error, s.pc = .script (.caught error)) →
      s.hard = true → Steps s (.proceed true) { s with pc := .draining }
  | succeed {text} : s.pc = .script (.returned (.printable text)) →
      Steps s (.proceed false) { s with pc := .draining, globals := s.globals.succeed text }
  | rethrow {thrown} : s.pc = .script (.returned (.throwing thrown)) →
      Steps s (.proceed false) { s with pc := .script (.caught thrown) }
  | fail {text} : s.pc = .script (.caught (.printable text)) →
      Steps s (.proceed false) { s with pc := .draining, globals := s.globals.fail text }
  | uncaught {thrown} : s.pc = .script (.caught (.throwing thrown)) →
      Steps s (.proceed false) { s with pc := .draining }
  | chain {cut} : s.pc = .chaining → (cut = true → s.hard = true) →
      Steps s (.proceed cut)
        { s with
          pc := .draining
          promises := Function.update s.promises s.iterIndex (.pending !cut) }
  | settle {iteration fate chained} : canSettle s.pc = true →
      s.promises iteration = .pending chained →
      Steps s (.settle iteration fate)
        { s with
          promises := Function.update s.promises iteration (.settled fate chained)
          history := { s.history with
            fate := if iteration = s.iterIndex then some fate else s.history.fate } }
  | drain {resolved metas} : s.pc = .draining →
      VuShared.resolveAll s.shared.completed s.shared.asyncMeta = some (resolved, metas) →
      Steps s .drain
        { s with
          pc := .script .jobs
          shared := { s.shared with
            outstanding := s.shared.outstanding - s.shared.completed.length
            completed := []
            asyncMeta := metas }
          history := { s.history with
            late := false
            resolutions := s.history.resolutions ++
              resolved.map fun (op, md) => (op, md, s.history.iterations) } }
  | drainPanic : s.pc = .draining →
      VuShared.resolveAll s.shared.completed s.shared.asyncMeta = none →
      Steps s .drain { s with pc := .panicked }
  | react {iteration fate cut} : s.pc = .script .jobs → (cut = true → s.hard = true) →
      s.promises iteration = .settled fate true →
      Steps s (.react iteration cut)
        { s with
          promises := Function.update s.promises iteration (.settled fate false)
          globals := s.globals.settle cut fate }
  | jobsEnd : s.pc = .script .jobs → Steps s .jobsEnd { s with pc := .checking }
  | leave : s.pc = .checking →
      (s.globals.done = true ∧ s.shared.outstanding = 0) ∨ s.hard = true → Steps s .check s.leave
  /-- The driver loop waits for an operation. -/
  | awaitPending : s.pc = .checking →
      ¬(s.globals.done = true ∧ s.shared.outstanding = 0) → s.hard = false →
      Steps s .check (s.yield .awaitPending)
  | publish : s.pc = .publishing → Steps s .publish s.publish
  | hardCancel : s.hard = true → parked s.pc = true →
      Steps s .hardCancel { s with pc := .unwound, interrupted := s.interrupted + 1 }

variable {s s' : Coroutine μ ρ}

private theorem steps_next {go : Bool} (h : s.step (.next go) = some s') :
    Steps s (.next go) s' := by
  simp only [step] at h
  split at h
  · rename_i hpc
    cases h
    exact .first hpc
  · rename_i hpc
    cases h
    cases go with
    | true => exact .grant hpc
    | false => exact .decline hpc
  · cases h

private theorem steps_complete {op : ℕ} {res : ρ} (h : s.step (.complete op res) = some s') :
    Steps s (.complete op res) s' := by
  simp only [step] at h
  split at h
  · rename_i hop
    split at h
    · rename_i site hpc
      cases h
      exact .queue hop (.inl ⟨site, hpc⟩)
    · rename_i site batch hpc
      cases h
      exact .queue hop (.inr ⟨site, batch, hpc⟩)
    · rename_i hpc
      cases h
      exact .wake hop hpc
    · cases h
  · cases h

private theorem steps_batchResume (h : s.step .batchResume = some s') :
    Steps s .batchResume s' := by
  simp only [step] at h
  split at h
  · rename_i site batch hpc
    split at h
    · rename_i hremaining
      split at h
      · rename_i out hout
        cases h
        exact .batchResume hpc hremaining hout
      · rename_i hout
        cases h
        exact .batchPanic hpc hremaining hout
    · cases h
  · cases h

private theorem steps_proceed {cut : Bool} (h : s.proceed cut = some s') :
    Steps s (.proceed cut) s' := by
  rw [proceed] at h
  split at h
  · cases h
  · rename_i hcut
    have hhard : cut = true → s.hard = true := by
      intro hc
      simpa [hc] using hcut
    split at h
    · rename_i value hpc
      cases cut with
      | true =>
          cases h
          exact .convertCut (.inl ⟨value, hpc⟩) (hhard rfl)
      | false =>
          cases value with
          | printable text => cases h; exact .succeed hpc
          | throwing thrown => cases h; exact .rethrow hpc
    · rename_i error hpc
      cases cut with
      | true =>
          cases h
          exact .convertCut (.inr ⟨error, hpc⟩) (hhard rfl)
      | false =>
          cases error with
          | printable text => cases h; exact .fail hpc
          | throwing thrown => cases h; exact .uncaught hpc
    · rename_i hpc
      cases h
      exact .chain hpc hhard
    · cases h

private theorem steps_settle {iteration : ℕ} {fate : Fate}
    (h : s.step (.settle iteration fate) = some s') : Steps s (.settle iteration fate) s' := by
  simp only [step] at h
  split at h
  · rename_i hpc
    rw [Coroutine.settle] at h
    split at h
    · rename_i chained hpromise
      cases h
      exact .settle hpc hpromise
    · cases h
  · cases h

private theorem steps_react {iteration : ℕ} {cut : Bool}
    (h : s.step (.react iteration cut) = some s') : Steps s (.react iteration cut) s' := by
  simp only [step] at h
  split at h
  · rename_i hpc
    rw [Coroutine.react] at h
    split at h
    · cases h
    · rename_i hcut
      split at h
      · rename_i fate hpromise
        cases h
        exact .react hpc (fun hc => by simpa [hc] using hcut) hpromise
      · cases h
  · cases h

private theorem steps_drain (h : s.step .drain = some s') : Steps s .drain s' := by
  simp only [step] at h
  split at h
  · rename_i hpc
    rw [Coroutine.drain] at h
    split at h
    · rename_i hnone
      cases h
      exact .drainPanic hpc hnone
    · rename_i resolved metas hsome
      cases h
      exact .drain hpc hsome
  · cases h

private theorem steps_check (h : s.step .check = some s') : Steps s .check s' := by
  simp only [step] at h
  split at h
  · rename_i hpc
    rw [Coroutine.check] at h
    split at h
    · rename_i hdone
      cases h
      exact .leave hpc (.inl (by simpa using hdone))
    · rename_i hdone
      split at h
      · rename_i hhard
        cases h
        exact .leave hpc (.inr hhard)
      · rename_i hhard
        cases h
        exact .awaitPending hpc (by simpa using hdone) (by simpa using hhard)
  · cases h

theorem steps_of_step {e : CoroutineEvent μ ρ} (h : s.step e = some s') : Steps s e s' := by
  cases e with
  | fireHard => cases h; exact .fireHard
  | next go => exact steps_next h
  | complete op res => exact steps_complete h
  | batchDone i res =>
      simp only [step] at h
      split at h
      · rename_i site batch hpc
        obtain ⟨batch', hdone, rfl⟩ := Option.map_eq_some_iff.mp h
        exact .batchDone hpc hdone
      · cases h
  | batchResume => exact steps_batchResume h
  | proceed cut => exact steps_proceed h
  | settle iteration fate => exact steps_settle h
  | react iteration cut => exact steps_react h
  | drain => exact steps_drain h
  | check => exact steps_check h
  | hardCancel =>
      simp only [step] at h
      split at h
      · rename_i hguard
        cases h
        obtain ⟨hhard, hparked⟩ := Bool.and_eq_true_iff.mp hguard
        exact .hardCancel hhard hparked
      · cases h
  | entryCut | execCut =>
      simp only [step] at h
      split at h
      · rename_i hpc
        split at h
        · rename_i hhard
          cases h
          constructor
          · exact hpc
          · exact hhard
        · cases h
      · cases h
  | register md | awaitOne | awaitAll metas | opDone | initEnd | start | noExec | call
  | execReturn value | execThrow error | execPromise | jobsEnd | publish =>
      simp only [step] at h
      split at h
      · rename_i hpc
        cases h
        constructor
        exact hpc
      · cases h

end Coroutine

end K6Rs
