import K6Rs.Library.WorkQueue
import K6Rs.Model.PendingJobs

/-! Draining the pending jobs. However the jobs put further ones into the queue, the loop ends; it
ends with an empty queue exactly when no job throws but the last. -/

namespace K6Rs

variable {σ : Type}

namespace Job

/-- Some state makes `j` put `k` into the queue. -/
def Spawns (k j : Job σ) : Prop := ∃ s, k ∈ j.enqueues s

theorem wellFounded_spawns : WellFounded (Spawns : Job σ → Job σ → Prop) := by
  constructor
  refine @Job.rec σ (fun j => Acc Spawns j) (fun jobs => ∀ k ∈ jobs, Acc Spawns k) ?_ ?_ ?_
  · intro effect throws enqueues ih
    constructor
    rintro k ⟨s, hk⟩
    exact ih s k hk
  · exact nofun
  · intro job jobs hjob hjobs k hk
    rcases List.mem_cons.mp hk with rfl | hk
    · exact hjob
    · exact hjobs k hk

end Job

/-- Every job runs once and in the order of the queue, from the heap `s` to `s'`; the log tells of
each whether it threw. -/
inductive RunsAll : σ → List (Job σ) → List (Job σ × Bool) → σ → Prop where
  | done {s : σ} : RunsAll s [] [] s
  | job {s s' : σ} {job : Job σ} {rest : List (Job σ)} {log : List (Job σ × Bool)}
      (h : RunsAll (job.effect s) (rest ++ job.enqueues s) log s') :
      RunsAll s (job :: rest) ((job, job.throws s) :: log) s'

theorem exists_runsAll (s : σ) (jobs : List (Job σ)) : ∃ log s', RunsAll s jobs log s' := by
  induction jobs using WorkQueue.induction Job.wellFounded_spawns generalizing s with
  | hnil => exact ⟨[], s, .done⟩
  | hcons job rest ih =>
      obtain ⟨log, s', h⟩ := ih (job.enqueues s) (fun k hk => ⟨s, hk⟩) (job.effect s)
      exact ⟨_, s', .job h⟩

theorem RunsAll.nil {s s' : σ} {log : List (Job σ × Bool)} (h : RunsAll s [] log s') :
    log = [] ∧ s' = s := by
  cases h
  exact ⟨rfl, rfl⟩

theorem RunsAll.eq_nil {s s' : σ} {jobs : List (Job σ)} (h : RunsAll s jobs [] s') : jobs = [] := by
  cases h
  rfl

/-- The order of the queue leaves no choice. -/
theorem RunsAll.unique {s s₁ s₂ : σ} {jobs : List (Job σ)} {log₁ log₂ : List (Job σ × Bool)}
    (h₁ : RunsAll s jobs log₁ s₁) (h₂ : RunsAll s jobs log₂ s₂) : log₁ = log₂ ∧ s₁ = s₂ := by
  induction h₁ generalizing log₂ s₂ with
  | done =>
      obtain ⟨rfl, rfl⟩ := h₂.nil
      exact ⟨rfl, rfl⟩
  | job h ih =>
      cases h₂ with
      | job h' =>
          obtain ⟨rfl, rfl⟩ := ih h'
          exact ⟨rfl, rfl⟩

namespace JsRuntime

/-- Only the last job of the run may throw. -/
def Quiet (log : List (Job σ × Bool)) : Prop := ∀ entry ∈ log.dropLast, entry.2 = false

theorem quiet_cons_iff {entry : Job σ × Bool} {log : List (Job σ × Bool)} (hlog : log ≠ []) :
    Quiet (entry :: log) ↔ entry.2 = false ∧ Quiet log := by
  rw [Quiet, List.dropLast_cons_of_ne_nil hlog, List.forall_mem_cons, Quiet]

theorem drain_cons_of_throws {s : σ} {job : Job σ} {rest ran : List (Job σ)}
    (h : job.throws s = true) (fuel : ℕ) :
    drainPendingJobs (fuel + 1) ⟨s, job :: rest, ran⟩ =
      some ⟨job.effect s, rest ++ job.enqueues s, ran ++ [job]⟩ := by
  simp [drainPendingJobs, executePendingJob, h]

theorem drain_cons {s : σ} {job : Job σ} {rest ran : List (Job σ)} (h : job.throws s = false)
    (fuel : ℕ) :
    drainPendingJobs (fuel + 1) ⟨s, job :: rest, ran⟩ =
      drainPendingJobs fuel ⟨job.effect s, rest ++ job.enqueues s, ran ++ [job]⟩ := by
  simp [drainPendingJobs, executePendingJob, h]

/-- The loop ends, whether jobs throw or not. -/
theorem drain_returns {s s' : σ} {jobs : List (Job σ)} {log : List (Job σ × Bool)}
    (h : RunsAll s jobs log s')
    (ran : List (Job σ)) : ∃ fuel, (drainPendingJobs fuel ⟨s, jobs, ran⟩).isSome = true := by
  induction h generalizing ran with
  | done => exact ⟨1, rfl⟩
  | @job s s' job rest log h ih =>
      cases hthrows : job.throws s with
      | true =>
          refine ⟨1, ?_⟩
          rw [drain_cons_of_throws hthrows]
          rfl
      | false =>
          obtain ⟨fuel, hfuel⟩ := ih (ran ++ [job])
          refine ⟨fuel + 1, ?_⟩
          rwa [drain_cons hthrows]

/-- Where no job throws but the last, the loop runs them all. -/
theorem drain_of_quiet {s s' : σ} {jobs : List (Job σ)} {log : List (Job σ × Bool)}
    (h : RunsAll s jobs log s')
    (hquiet : Quiet log) (ran : List (Job σ)) :
    ∃ fuel, drainPendingJobs fuel ⟨s, jobs, ran⟩ = some ⟨s', [], ran ++ log.map Prod.fst⟩ := by
  induction h generalizing ran with
  | done => exact ⟨1, by simp [drainPendingJobs, executePendingJob]⟩
  | @job s s' job rest log h ih =>
      by_cases hlog : log = []
      · subst hlog
        have hrest := h.eq_nil
        rw [hrest] at h
        obtain ⟨-, rfl⟩ := h.nil
        cases hthrows : job.throws s with
        | true =>
            refine ⟨1, ?_⟩
            rw [drain_cons_of_throws hthrows, hrest]
            rfl
        | false =>
            refine ⟨2, ?_⟩
            rw [drain_cons hthrows, hrest]
            rfl
      · obtain ⟨hthrows, hquiet⟩ := (quiet_cons_iff hlog).mp hquiet
        obtain ⟨fuel, hfuel⟩ := ih hquiet (ran ++ [job])
        refine ⟨fuel + 1, ?_⟩
        rw [drain_cons hthrows, hfuel, List.map_cons, List.append_assoc]
        rfl

/-- The loop stops at a job that throws, so that an empty queue tells that none did but the last. -/
theorem quiet_of_drain {s s' : σ} {jobs : List (Job σ)} {log : List (Job σ × Bool)}
    (h : RunsAll s jobs log s')
    {fuel : ℕ} {ran : List (Job σ)} {rt : JsRuntime σ}
      (hdrain : drainPendingJobs fuel ⟨s, jobs, ran⟩ = some rt)
    (hempty : rt.jobs = []) : Quiet log := by
  induction h generalizing fuel ran with
  | done => exact nofun
  | @job s s' job rest log h ih =>
      cases fuel with
      | zero => cases hdrain
      | succ fuel =>
          by_cases hlog : log = []
          · subst hlog
            exact nofun
          · rw [quiet_cons_iff hlog]
            cases hthrows : job.throws s with
            | true =>
                rw [drain_cons_of_throws hthrows, Option.some.injEq] at hdrain
                subst hdrain
                rw [show rest ++ job.enqueues s = [] from hempty] at h
                exact absurd h.nil.1 hlog
            | false =>
                rw [drain_cons hthrows] at hdrain
                exact ⟨rfl, ih hdrain⟩

/-- A pass of the driver decides with an empty queue, after every job has run once and in the order
of the queue. -/
def RunsEveryJob (done : σ → Bool) (outstanding : ℕ) (hard : Bool) (s : σ) (jobs : List (Job σ)) :
    Prop :=
  ∃ fuel decision rt log s', RunsAll s jobs log s' ∧
    driverPass done outstanding hard fuel ⟨s, jobs, []⟩ = some (decision, rt) ∧
    rt.jobs = [] ∧ rt.ran = log.map Prod.fst

/-- The drain returns, and the driver decides after every job exactly when no job throws but the
last. -/
theorem runsEveryJob_iff (done : σ → Bool) (outstanding : ℕ) (hard : Bool) (s : σ)
    (jobs : List (Job σ)) :
    (∃ fuel, (drainPendingJobs fuel ⟨s, jobs, []⟩).isSome = true) ∧
      (RunsEveryJob done outstanding hard s jobs ↔ ∀ log s',
        RunsAll s jobs log s' → Quiet log) := by
  obtain ⟨log, s', hall⟩ := exists_runsAll s jobs
  refine ⟨drain_returns hall [], ?_, ?_⟩
  · rintro ⟨fuel, decision, rt, log', s'', -, hpass, hempty, -⟩ log s' hall
    simp only [driverPass, Option.bind_eq_bind, Option.bind_eq_some_iff] at hpass
    obtain ⟨rt', hdrain, hdecision⟩ := hpass
    cases hdecision
    exact quiet_of_drain hall hdrain hempty
  · intro hquiet
    obtain ⟨fuel, hdrain⟩ := drain_of_quiet hall (hquiet log s' hall) []
    have hpass : ∃ decision, driverPass done outstanding hard fuel ⟨s, jobs, []⟩ =
        some (decision, ⟨s', [], [] ++ log.map Prod.fst⟩) := by
      rw [driverPass, hdrain]
      exact ⟨_, rfl⟩
    obtain ⟨decision, hpass⟩ := hpass
    exact ⟨fuel, decision, _, log, s', hall, hpass, rfl, rfl⟩

/-- A job that throws, before one that does not. -/
def throwingFirst : List (Job Unit) :=
  [.mk id (fun _ => true) fun _ => [], .mk id (fun _ => false) fun _ => []]

theorem not_runsEveryJob_throwingFirst :
    ¬RunsEveryJob (fun _ => false) 1 false () throwingFirst := by
  rintro ⟨fuel, decision, rt, log, s', -, hpass, hempty, -⟩
  simp only [driverPass, Option.bind_eq_bind, Option.bind_eq_some_iff] at hpass
  obtain ⟨rt', hdrain, hdecision⟩ := hpass
  cases hdecision
  cases fuel with
  | zero => cases hdrain
  | succ fuel =>
      cases hdrain
      cases hempty

end JsRuntime

end K6Rs
