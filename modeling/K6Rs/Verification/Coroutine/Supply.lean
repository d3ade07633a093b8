import K6Rs.Verification.Coroutine.Accounting

/-! Whether the driver loop waits for something. It yields to wait for an operation
with a result already in its queue only when the operation completed while a job was
parked, and with no operation to wait for only when the iteration is not settled and
nothing is outstanding. -/

namespace K6Rs

variable {μ ρ : Type} {s s' : Coroutine μ ρ} {e : CoroutineEvent μ ρ}

/-- When the jobs end, no operation has completed behind the back of the driver loop,
and what is not settled has an operation outstanding, unless the hard stop has fired. -/
def CoroutineEvent.Timely (s : Coroutine μ ρ) : CoroutineEvent μ ρ → Prop
  | .check => s.hard = true ∨
      s.history.late = false ∧ (s.globals.done = true ∨ s.shared.outstanding ≠ 0)
  | _ => True

namespace Coroutine

/-- The points from the end of a drain to the next one. -/
def turned : CoroutinePc μ ρ → Bool
  | .script .jobs | .awaitOne .jobs | .awaitAll .jobs _ | .checking | .awaitPending => true
  | _ => false

@[simp] theorem turned_awaitOne (site : Site) :
    turned (.awaitOne site : CoroutinePc μ ρ) = turned (.script site : CoroutinePc μ ρ) := by
  cases site <;> rfl

@[simp] theorem turned_awaitAll (site : Site) (batch : Batch μ ρ) :
    turned (.awaitAll site batch) = turned (.script site : CoroutinePc μ ρ) := by
  cases site <;> rfl

/-- After a drain the queue of results is empty until one comes late. -/
structure Turn (s : Coroutine μ ρ) : Prop where
  drained : turned s.pc = true → s.history.late = false → s.shared.completed = []
  late : s.history.late = true → s.shared.completed ≠ []

theorem turn_new : (new : Coroutine μ ρ).Turn := ⟨fun _ _ => rfl, fun h => by cases h⟩

private theorem Turn.mono (hs : s.Turn) {pc pc' : CoroutinePc μ ρ} (hpc : s.pc = pc)
    (hpc' : s'.pc = pc') (hlate : s'.history.late = s.history.late)
    (hcompleted : s'.shared.completed = s.shared.completed)
    (hturned : Coroutine.turned pc' = true → Coroutine.turned pc = true) : s'.Turn := by
  subst hpc hpc'
  refine ⟨fun h hnot => ?_, fun h => ?_⟩
  · rw [hcompleted]
    exact hs.drained (hturned h) (hlate ▸ hnot)
  · rw [hcompleted]
    exact hs.late (hlate ▸ h)

private theorem turn_queue {op : ℕ} {res : ρ}
    (hpc : (∃ site, s.pc = .awaitOne site) ∨ (∃ site batch, s.pc = .awaitAll site batch)) :
    (s.queue op res).Turn := by
  refine ⟨fun hturned hlate => ?_, fun _ => by simp [Coroutine.queue]⟩
  -- A result that comes while the loop is past its drain comes while a job is parked.
  have hparked : jobParked s.pc = true := by
    change Coroutine.turned s.pc = true at hturned
    obtain ⟨site, hpc⟩ | ⟨site, batch, hpc⟩ := hpc
    · rw [hpc] at hturned ⊢
      cases site <;> first | rfl | cases hturned
    · rw [hpc] at hturned ⊢
      cases site <;> first | rfl | cases hturned
  simp [Coroutine.queue, hparked] at hlate

theorem Turn.step (hs : s.Turn) (h : Steps s e s') : s'.Turn := by
  cases h with
  | fireHard | settle | react | register => exact ⟨hs.drained, hs.late⟩
  | queue hop hpc => exact turn_queue hpc
  | wake hop hpc => exact ⟨fun h => (by cases h), fun _ => by simp [Coroutine.queue]⟩
  | start hpc => exact ⟨fun h => (by cases h), fun h => (by cases h)⟩
  | drain hpc hsome => exact ⟨fun _ _ => rfl, fun h => (by cases h)⟩
  | jobsEnd hpc | awaitPending hpc => exact hs.mono hpc rfl rfl rfl (fun _ => rfl)
  | @awaitOne site hpc | @awaitAll site metas hpc | @opDone site hpc
  | @batchDone site batch batch' i res hpc | @batchResume site batch out hpc =>
      exact hs.mono hpc rfl rfl rfl (by simp)
  | initEnd hpc =>
      refine hs.mono hpc rfl rfl rfl ?_
      cases s.sig <;> simp [Coroutine.turned]
  | _ => exact ⟨fun h => (by cases h), hs.late⟩

/-- There are never more operations outstanding than in the books. -/
def Covered (s : Coroutine μ ρ) : Prop :=
  s.shared.outstanding ≤
    s.shared.registered.length + s.pending.length + s.shared.completed.length

theorem Covered.step (hs : s.Covered) (h : Steps s e s') : s'.Covered := by
  rw [Covered] at hs ⊢
  cases h with
  | register hpc =>
      simp only [Coroutine.register, VuShared.registerAsync, List.length_append,
        List.length_singleton]
      omega
  | awaitOne | awaitAll | awaitPending | publish =>
      simp only [Coroutine.yield, Coroutine.publish, List.length_append, List.length_nil]
      omega
  | queue hop | wake hop =>
      have hpos := List.length_pos_of_mem hop
      simp only [Coroutine.queue, List.length_append, List.length_singleton,
        List.length_erase_of_mem hop]
      omega
  | start hpc => exact Nat.zero_le _
  | drain hpc hsome =>
      simp only [List.length_nil]
      omega
  | _ => exact hs

/-- Waiting, the driver loop has taken every result, and a future can wake it. -/
def Supplied (s : Coroutine μ ρ) : Prop :=
  s.pc = .awaitPending → s.shared.completed = [] ∧ s.pending ≠ []

theorem Supplied.step (hturn : s.Turn) (hcovered : s.Covered) (hsupplied : s.Supplied)
    (he : e.Timely s) (h : Steps s e s') : s'.Supplied := by
  intro hpc'
  cases h with
  | fireHard => exact hsupplied hpc'
  | awaitPending hpc hidle hhard =>
      obtain ⟨hlate, hsettled⟩ := he.resolve_left (by simp [hhard])
      have hcompleted := hturn.drained (by rw [hpc]; rfl) hlate
      refine ⟨hcompleted, fun hempty => ?_⟩
      have hne : s.shared.outstanding ≠ 0 := by
        obtain hdone | hne := hsettled
        · exact fun hzero => hidle ⟨hdone, hzero⟩
        · exact hne
      obtain ⟨hpending, hregistered⟩ := List.append_eq_nil_iff.mp hempty
      rw [Covered, hcompleted, hpending, hregistered] at hcovered
      exact hne (Nat.le_zero.mp hcovered)
  | queue hop hpc =>
      change s.pc = _ at hpc'
      rw [hpc'] at hpc
      simp at hpc
  | settle hcan =>
      change s.pc = _ at hpc'
      rw [hpc'] at hcan
      cases hcan
  | register hpc | react hpc =>
      change s.pc = _ at hpc'
      rw [hpc] at hpc'
      cases hpc'
  | initEnd hpc =>
      simp only at hpc'
      split at hpc'
      · cases hpc'
      · cases hpc'
  | _ => cases hpc'

/-- The driver task can resume a supplied VU without the hard stop. -/
theorem Supplied.wakes (hs : s.Supplied) (hpc : s.pc = .awaitPending) (res : ρ) :
    ∃ op s', s.step (.complete op res) = some s' ∧ s'.pc = .draining := by
  obtain ⟨op, hop⟩ := List.exists_mem_of_ne_nil _ (hs hpc).2
  exact ⟨op, { s.queue op res with pc := .draining }, by simp [Coroutine.step, hop, hpc], rfl⟩

theorem supplied_of_runs {es : List (CoroutineEvent μ ρ)}
    (h : (coroutineSystem μ ρ).Runs (fun s e => e.Timely s) es s) : s.Supplied := by
  have hinv : (s.Turn ∧ s.Covered) ∧ s.Supplied := by
    apply h.invariant (I := fun s => (s.Turn ∧ s.Covered) ∧ s.Supplied)
    · rintro s rfl
      exact ⟨⟨turn_new, Nat.zero_le _⟩, fun h => by cases h⟩
    · intro s e s' hs he hstep
      have hsteps := steps_of_step hstep
      exact ⟨⟨hs.1.1.step hsteps, hs.1.2.step hsteps⟩, hs.2.step hs.1.1 hs.1.2 he hsteps⟩
  exact hinv.2

/-- With the books kept, a step after which the VU is supplied was timely. -/
private theorem timely_of_supplied (hs : s.Booked) (hturn : s.Turn) (hafter : s'.Supplied)
    (h : Steps s e s') : e.Timely s := by
  have hsum := Books.outstanding hs
  cases h with
  | leave hpc hdone =>
      rcases hdone with hdone | hhard
      · refine .inr ⟨?_, .inl hdone.1⟩
        -- A late result would still be outstanding.
        rw [← Bool.not_eq_true]
        intro hlate
        have hpos := List.length_pos_iff.mpr (hturn.late hlate)
        omega
      · exact .inl hhard
  | awaitPending hpc hidle hhard =>
      obtain ⟨hcompleted, hpending⟩ := hafter rfl
      refine .inr ⟨?_, .inr ?_⟩
      · rw [← Bool.not_eq_true]
        exact fun hlate => hturn.late hlate hcompleted
      · have hpos := List.length_pos_iff.mpr hpending
        simp only [Coroutine.yield, List.length_append] at hpos
        omega
  | _ => trivial

end Coroutine

open Coroutine

/-- In every timely run the driver loop waits with an empty queue and a future to wake
it. Where no operation crosses the boundary of an iteration, only timely runs do so. -/
theorem coroutine_supplied (es : List (CoroutineEvent μ ρ)) (s : Coroutine μ ρ) :
    ((coroutineSystem μ ρ).Runs (fun s e => e.Timely s) es s → s.pc = .awaitPending →
      s.shared.completed = [] ∧ s.pending ≠ [] ∧
        ∀ res, ∃ op s', s.step (.complete op res) = some s' ∧ s'.pc = .draining) ∧
    ((coroutineSystem μ ρ).Runs (fun s e => s.Supplied ∧ ¬e.CarriesOver s) es s → s.Supplied →
      (coroutineSystem μ ρ).Runs (fun s e => e.Timely s) es s) := by
  constructor
  · intro h hpc
    have hsupplied := supplied_of_runs h
    exact ⟨(hsupplied hpc).1, (hsupplied hpc).2, hsupplied.wakes hpc⟩
  · intro h hend
    apply (h.before_after hend).imp (I := fun s => (s.Booked ∧ s.Leftovers) ∧ s.Turn)
    · exact fun _ hs => hs ▸ ⟨booked_and_leftovers_new, turn_new⟩
    · exact fun _ _ _ hs hc hstep =>
        ⟨booked_and_leftovers_step hs.1 hc.2.1 (steps_of_step hstep),
          hs.2.step (steps_of_step hstep)⟩
    · exact fun _ _ s' hs hc hstep =>
        timely_of_supplied hs.1.1 hs.2 (hc.2.2 s' hstep) (steps_of_step hstep)

/-- The exec function awaits an asynchronous request. -/
private def awaitedRequest : List (CoroutineEvent ℕ ℕ) :=
  [.next true, .initEnd, .start, .call, .register 7, .execPromise, .proceed false, .drain, .jobsEnd,
    .check]

private def timely (s : Coroutine μ ρ) : CoroutineEvent μ ρ → Bool
  | .check => s.hard || !s.history.late && (s.globals.done || s.shared.outstanding != 0)
  | _ => true

theorem coroutine_supplied_awaitedRequest : ∃ s : Coroutine ℕ ℕ,
    s.pc = .awaitPending ∧ s.shared.completed = [] ∧ s.pending = [0] ∧
      ∃ op s', s.step (.complete op 5) = some s' ∧ s'.pc = .draining := by
  obtain ⟨s, hrun, hpc, hpending⟩ :=
    (coroutineSystem ℕ ℕ).exists_runs_of_execWhen awaitedRequest (B := timely)
      (P := fun s => s.pc = .awaitPending ∧ s.pending = [0]) rfl (by decide)
  have htimely := hrun.mono (D := fun s e => e.Timely s) fun s e he => by
    cases e with
    | check => simpa [timely, CoroutineEvent.Timely] using he
    | _ => trivial
  obtain ⟨hcompleted, _, hwakes⟩ := (coroutine_supplied awaitedRequest s).1 htimely hpc
  exact ⟨s, hpc, hcompleted, hpending, hwakes 5⟩

/-- A job sleeps while the request the exec function awaits completes. -/
def lateResult : List (CoroutineEvent ℕ ℕ) :=
  [.next true, .initEnd, .start, .call, .register 7, .execPromise, .proceed false, .drain,
    .awaitOne, .complete 0 5, .opDone, .jobsEnd, .check]

/-- The exec function returns a promise that nothing settles. -/
def unsettled : List (CoroutineEvent ℕ ℕ) :=
  [.next true, .initEnd, .start, .call, .execPromise, .proceed false, .drain, .jobsEnd, .check]

theorem not_supplied_lateResult :
    (∃ s : Coroutine ℕ ℕ, (coroutineSystem ℕ ℕ).AnyRun lateResult s ∧ s.pc = .awaitPending ∧
      s.hard = false ∧ s.shared.completed = [(0, 5)] ∧ s.pending = [] ∧ ¬s.Supplied ∧
      ∀ op res, s.step (.complete op res) = none) ∧
    ∃ s : Coroutine ℕ ℕ, (coroutineSystem ℕ ℕ).AnyRun unsettled s ∧ s.pc = .awaitPending ∧
      s.hard = false ∧ s.shared.completed = [] ∧ s.pending = [] ∧ ¬s.Supplied := by
  constructor
  · obtain ⟨s, hrun, hpc, hhard, hcompleted, hpending⟩ :=
      (coroutineSystem ℕ ℕ).exists_run_of_exec lateResult
        (P := fun s => s.pc = .awaitPending ∧ s.hard = false ∧
          s.shared.completed = [(0, 5)] ∧ s.pending = []) rfl (by decide)
    refine ⟨s, hrun, hpc, hhard, hcompleted, hpending, fun h => (h hpc).2 hpending, ?_⟩
    intro op res
    simp [Coroutine.step, hpending]
  · obtain ⟨s, hrun, hpc, hhard, hcompleted, hpending⟩ :=
      (coroutineSystem ℕ ℕ).exists_run_of_exec unsettled
        (P := fun s => s.pc = .awaitPending ∧ s.hard = false ∧
          s.shared.completed = [] ∧ s.pending = []) rfl (by decide)
    exact ⟨s, hrun, hpc, hhard, hcompleted, hpending, fun h => (h hpc).2 hpending⟩

end K6Rs
