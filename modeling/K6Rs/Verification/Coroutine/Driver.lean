import K6Rs.Verification.Coroutine.Steps
import K6Rs.Verification.Pool.Accounts
import Mathlib.Data.List.Count

/-! A coroutine VU refines the driver of the pool: what the scheduler sees of its runs are
runs of one VU, with the outcomes it publishes and the interruptions it counts. -/

namespace K6Rs

variable {μ ρ : Type}

/-! ## What the driver sees -/

/-- How far a coroutine is, as its driver sees it. -/
inductive Phase where
  | fresh
  /-- The script's top level runs, resumed with `RunNext` or with `Stop`. -/
  | init (go : Bool)
  | iterating
  | boundary
  | ended
  | panicked
  deriving DecidableEq

/-- The outcome without its text. -/
def PublishedOutcome.kind : PublishedOutcome → IterationOutcome
  | .completed _ => .completed
  | .errored _ => .errored
  | .interrupted => .interrupted

structure DriverView where
  phase : Phase
  iterIndex : ℕ
  result : Option IterationOutcome
  hard : Bool
  published : List IterationOutcome
  interrupted : ℕ

/-- The phase of a location; `go` tells how the coroutine was last resumed. -/
def CoroutinePc.phase (go : Bool) : CoroutinePc μ ρ → Phase
  | .fresh => .fresh
  | .script .init | .awaitOne .init | .awaitAll .init _ => .init go
  | .boundary => .boundary
  | .returned | .unwound => .ended
  | .panicked => .panicked
  | _ => .iterating

def Coroutine.view (s : Coroutine μ ρ) : DriverView where
  phase := s.pc.phase s.sig
  iterIndex := s.iterIndex
  result := s.result.map PublishedOutcome.kind
  hard := s.hard
  published := s.history.published.map fun p => p.1.kind
  interrupted := s.interrupted

/-- What one step can do to the view. -/
inductive DriverView.Step (v : DriverView) : DriverView → Prop where
  /-- A step inside the coroutine. -/
  | inside : Step v v
  | fireHard : Step v { v with hard := true }
  | first {go} : v.phase = .fresh → Step v { v with phase := .init go }
  | begin : v.phase = .init true → Step v { v with phase := .iterating }
  | stop : v.phase = .init false → Step v { v with phase := .ended }
  | grant : v.phase = .boundary → Step v { v with phase := .iterating }
  | decline : v.phase = .boundary → Step v { v with phase := .ended }
  | publish {outcome} : v.phase = .iterating →
      Step v
        { v with
          phase := .boundary
          iterIndex := v.iterIndex + 1
          result := some outcome
          published := v.published ++ [outcome] }
  | cut : v.hard = true → (∃ go, v.phase = .init go) ∨ v.phase = .iterating →
      Step v { v with phase := .ended, interrupted := v.interrupted + 1 }
  | panic : Step v { v with phase := .panicked }

namespace Coroutine

variable {s s' : Coroutine μ ρ} {e : CoroutineEvent μ ρ}

theorem phase_awaitOne (go : Bool) (site : Site) :
    (CoroutinePc.awaitOne site : CoroutinePc μ ρ).phase go =
      (CoroutinePc.script site : CoroutinePc μ ρ).phase go := by
  cases site <;> rfl

theorem phase_awaitAll (go : Bool) (site : Site) (batch : Batch μ ρ) :
    (CoroutinePc.awaitAll site batch).phase go =
      (CoroutinePc.script site : CoroutinePc μ ρ).phase go := by
  cases site <;> rfl

/-- A step that changes neither the phase nor what the driver keeps. -/
private theorem view_inside (hphase : s'.pc.phase s'.sig = s.pc.phase s.sig)
    (hiter : s'.iterIndex = s.iterIndex) (hresult : s'.result = s.result)
    (hhard : s'.hard = s.hard) (hpublished : s'.history.published = s.history.published)
    (hinterrupted : s'.interrupted = s.interrupted) : s.view.Step s'.view := by
  have heq : s'.view = s.view := by
    simp only [view, hphase, hiter, hresult, hhard, hpublished, hinterrupted]
  rw [heq]
  exact .inside

/-- Where the coroutine can be cut off, the script's top level or an iteration runs. -/
private theorem phase_of_parked (h : parked s.pc = true) :
    (∃ go, s.view.phase = .init go) ∨ s.view.phase = .iterating := by
  change (∃ go, s.pc.phase s.sig = .init go) ∨ s.pc.phase s.sig = .iterating
  cases hpc : s.pc with
  | awaitOne site =>
      rw [phase_awaitOne]
      cases site with
      | init => exact .inl ⟨_, rfl⟩
      | _ => exact .inr rfl
  | awaitAll site batch =>
      rw [phase_awaitAll]
      cases site with
      | init => exact .inl ⟨_, rfl⟩
      | _ => exact .inr rfl
  | awaitPending => exact .inr rfl
  | _ => rw [hpc] at h; cases h

theorem Steps.view (h : Steps s e s') : s.view.Step s'.view := by
  have hphase : ∀ {pc}, s.pc = pc → s.view.phase = pc.phase s.sig := fun hpc => hpc ▸ rfl
  cases h with
  | fireHard => exact .fireHard
  | first hpc => exact .first (hphase hpc)
  | grant hpc => exact .grant (hphase hpc)
  | decline hpc => exact .decline (hphase hpc)
  | initEnd hpc =>
      have hinit := hphase hpc
      cases hsig : s.sig with
      | true =>
          rw [hsig] at hinit
          exact .begin hinit
      | false =>
          rw [hsig] at hinit
          exact .stop hinit
  | publish hpc =>
      have heq : s.publish.view =
          { s.view with
            phase := .boundary
            iterIndex := s.iterIndex + 1
            result := some (classify s.hard s.globals).kind
            published := s.view.published ++ [(classify s.hard s.globals).kind] } := by
        simp [Coroutine.view, Coroutine.publish, Coroutine.yield, CoroutinePc.phase]
      rw [heq]
      exact .publish (hphase hpc)
  | hardCancel hhard hparked => exact .cut hhard (phase_of_parked hparked)
  | batchPanic hpc _ _ => exact .panic
  | drainPanic hpc _ => exact .panic
  | register hpc => exact view_inside (by rfl) rfl rfl rfl rfl rfl
  | awaitOne hpc => exact view_inside (by rw [hpc]; exact phase_awaitOne _ _) rfl rfl rfl rfl rfl
  | awaitAll hpc => exact view_inside (by rw [hpc]; exact phase_awaitAll _ _ _) rfl rfl rfl rfl rfl
  | opDone hpc => exact view_inside (by rw [hpc, phase_awaitOne]) rfl rfl rfl rfl rfl
  | batchDone hpc _ =>
      exact view_inside (by rw [hpc, phase_awaitAll, phase_awaitAll]) rfl rfl rfl rfl rfl
  | batchResume hpc _ _ => exact view_inside (by rw [hpc, phase_awaitAll]) rfl rfl rfl rfl rfl
  | convertCut hpc _ =>
      rcases hpc with ⟨_, hpc⟩ | ⟨_, hpc⟩ <;>
        exact view_inside (by rw [hpc]; rfl) rfl rfl rfl rfl rfl
  | queue | settle | react => exact view_inside rfl rfl rfl rfl rfl rfl
  | wake _ hpc | start hpc | entryCut hpc | noExec hpc | call hpc | execReturn hpc | execThrow hpc
  | execPromise hpc | execCut hpc | succeed hpc | rethrow hpc | fail hpc | uncaught hpc | chain hpc
  | drain hpc | jobsEnd hpc | leave hpc | awaitPending hpc =>
      exact view_inside (by rw [hpc]; rfl) rfl rfl rfl rfl rfl

end Coroutine

/-! ## The driver of the pool -/

inductive DriverEvent where
  | fireHard
  | vu (e : Vu.Event Unit)

/-- A pool of one VU, with a control that may answer anything. -/
def driverSystem : StepSystem (Pool 1 Unit) DriverEvent where
  init p := p = .new
  step p
    | .fireHard => some p.fireHard
    | .vu e => p.step 0 e

namespace DriverView

/-- Where the driver stands. -/
def pc (v : DriverView) : DriverPc Unit :=
  match v.phase with
  | .fresh => .deciding v.iterIndex ()
  | .init true | .iterating => .running v.iterIndex
  | .init false => .stopping v.iterIndex
  | .boundary => .entering v.iterIndex
  | .ended | .panicked => .gone

/-- The outcomes and the interruptions, counted. -/
def counts (v : DriverView) : Tally :=
  ⟨v.published.count .completed, v.published.count .errored,
    v.published.count .interrupted + v.interrupted⟩

/-- What the driver has not tallied: the outcome at whose boundary it stands. -/
def owed (v : DriverView) : Tally :=
  match v.phase with
  | .boundary => tallyOutcome v.result
  | _ => 0

/-- The driver of the pool stands at `pc`, with the outcome, the token and, but for `t`,
the counters of the view. -/
structure Stands (v : DriverView) (p : Pool 1 Unit) (pc : DriverPc Unit) (t : Tally) : Prop where
  pc : (p.vus 0).pc = pc
  result : (p.vus 0).result = v.result
  hard : p.hard = v.hard
  tally : p.tally + t = v.counts

/-- The pool shows the view. -/
structure Shows (v : DriverView) (p : Pool 1 Unit) : Prop where
  stands : v.Stands p v.pc v.owed
  early : v.phase = .fresh ∨ (∃ go, v.phase = .init go) → v.iterIndex = 0
  late : v.phase = .boundary → v.iterIndex ≠ 0

variable {v v' : DriverView} {p : Pool 1 Unit} {k : ℕ}

/-! ### The steps of the driver -/

theorem driver_step {e : Vu.Event Unit} {vu : Vu Unit} {d : Tally}
    (h : Vu.Steps p.hard (p.vus 0) e vu d) :
    driverSystem.step p (.vu e) = some ⟨fun _ => vu, p.tally + d, p.hard⟩ := by
  simp only [driverSystem, Pool.step, h.execution, Option.map_some, Option.some.injEq,
    Pool.mk.injEq, and_true]
  funext i
  rw [Subsingleton.elim i 0, Function.update_self]

theorem Stands.goes {pc : DriverPc Unit} {t : Tally} (h : v.Stands p pc t) (phase : Phase) :
    Stands { v with phase } p pc t := ⟨h.pc, h.result, h.hard, h.tally⟩

theorem Stands.tallied (h : v.Stands p (.entering k) (tallyOutcome v.result)) (hk : k ≠ 0) :
    ∃ p', driverSystem.step p (.vu (.tally ())) = some p' ∧ v.Stands p' (.deciding k ()) 0 := by
  obtain ⟨i, rfl⟩ := Nat.exists_eq_succ_of_ne_zero hk
  refine ⟨_, driver_step (.tally h.pc), rfl, h.result, h.hard, ?_⟩
  rw [h.result]
  exact h.tally

theorem Stands.answer {t : Tally} (h : v.Stands p (.deciding k ()) t) (go : Bool) :
    ∃ p', driverSystem.step p (.vu (.answer go)) = some p' ∧
      v.Stands p' (if go then .running k else .stopping k) t := by
  cases go with
  | true => exact ⟨_, driver_step (.grant h.pc), rfl, h.result, h.hard, h.tally⟩
  | false => exact ⟨_, driver_step (.decline h.pc), rfl, h.result, h.hard, h.tally⟩

theorem Stands.finish {t : Tally} (h : v.Stands p (.stopping k) t) :
    ∃ p', driverSystem.step p (.vu .finish) = some p' ∧ v.Stands p' .gone t :=
  ⟨_, driver_step (.finish h.pc), rfl, h.result, h.hard, h.tally⟩

/-- A published outcome counts for what its tally adds. -/
theorem counts_publish (outcome : IterationOutcome) :
    (⟨(v.published ++ [outcome]).count .completed, (v.published ++ [outcome]).count .errored,
      (v.published ++ [outcome]).count .interrupted + v.interrupted⟩ : Tally) =
      v.counts + tallyOutcome (some outcome) := by
  change _ = Tally.mk _ _ _
  cases outcome with
  | completed | errored => simp [counts, tallyOutcome]
  | interrupted =>
      simp only [counts, tallyOutcome, List.count_append, List.count_singleton]
      congr 1
      exact Nat.add_right_comm _ _ _

theorem Stands.boundary (h : v.Stands p (.running k) 0) (outcome : IterationOutcome) :
    ∃ p', driverSystem.step p (.vu (.boundary outcome)) = some p' ∧
      Stands
        { v with
          phase := .boundary
          iterIndex := v.iterIndex + 1
          result := some outcome
          published := v.published ++ [outcome] }
        p' (.entering (k + 1)) (tallyOutcome (some outcome)) := by
  refine ⟨_, driver_step (.boundary h.pc), rfl, rfl, h.hard, ?_⟩
  calc p.tally + 0 + tallyOutcome (some outcome)
      = v.counts + tallyOutcome (some outcome) := by rw [h.tally]
    _ = _ := (counts_publish outcome).symm

/-- The hard stop cuts off the iteration, or the top level of a script that was declined. -/
theorem Stands.cut {pc : DriverPc Unit} (h : v.Stands p pc 0) (hhard : v.hard = true)
    (hpc : pc = .running k ∨ pc = .stopping 0) :
    ∃ p', driverSystem.step p (.vu .hardCancel) = some p' ∧
      Stands { v with phase := .ended, interrupted := v.interrupted + 1 } p' .gone 0 := by
  have htally : p.tally + .interruption + 0 = v.counts + .interruption := by rw [← h.tally]; rfl
  have hfired : p.hard = true := h.hard.trans hhard
  rcases hpc with rfl | rfl
  · exact ⟨_, driver_step (.interrupt hfired h.pc), rfl, h.result, h.hard, htally⟩
  · exact ⟨_, driver_step (.stray hfired h.pc), rfl, h.result, h.hard, htally⟩

/-! ### The simulation -/

/-- What one step does to the view, some steps of the driver do. -/
theorem Step.matched (h : v.Step v') (hp : v.Shows p) :
    v'.phase = .panicked ∨
      ∃ fs p', driverSystem.execWhen (fun _ _ => true) p fs = some p' ∧ v'.Shows p' := by
  obtain ⟨hstands, hearly, hlate⟩ := hp
  cases h with
  | inside => exact .inr ⟨[], p, rfl, hstands, hearly, hlate⟩
  | fireHard =>
      exact .inr ⟨[.fireHard], p.fireHard, rfl,
        ⟨hstands.pc, hstands.result, rfl, hstands.tally⟩, hearly, hlate⟩
  | panic => exact .inl rfl
  | @first go hphase =>
      rw [pc, owed, hphase] at hstands
      obtain ⟨p', hanswer, hstands'⟩ := hstands.answer go
      refine .inr ⟨_, p', StepSystem.execWhen_cons rfl hanswer StepSystem.execWhen_nil, ?_⟩
      refine ⟨?_, fun _ => hearly (.inl hphase), nofun⟩
      cases go with
      | true => exact hstands'.goes _
      | false => exact hstands'.goes _
  | begin hphase =>
      rw [pc, owed, hphase] at hstands
      exact .inr ⟨[], p, rfl, hstands.goes _, nofun, nofun⟩
  | stop hphase =>
      rw [pc, owed, hphase] at hstands
      obtain ⟨p', hfinish, hstands'⟩ := hstands.finish
      exact .inr ⟨_, p', StepSystem.execWhen_cons rfl hfinish StepSystem.execWhen_nil,
        hstands'.goes _, nofun, nofun⟩
  | grant hphase =>
      rw [pc, owed, hphase] at hstands
      obtain ⟨p₁, htally, hstands₁⟩ := hstands.tallied (hlate hphase)
      obtain ⟨p₂, hanswer, hstands₂⟩ := hstands₁.answer true
      exact .inr ⟨_, p₂, StepSystem.execWhen_cons rfl htally
        (StepSystem.execWhen_cons rfl hanswer StepSystem.execWhen_nil),
        hstands₂.goes _, nofun, nofun⟩
  | decline hphase =>
      rw [pc, owed, hphase] at hstands
      obtain ⟨p₁, htally, hstands₁⟩ := hstands.tallied (hlate hphase)
      obtain ⟨p₂, hanswer, hstands₂⟩ := hstands₁.answer false
      obtain ⟨p₃, hfinish, hstands₃⟩ := Stands.finish hstands₂
      exact .inr ⟨_, p₃, StepSystem.execWhen_cons rfl htally (StepSystem.execWhen_cons rfl hanswer
        (StepSystem.execWhen_cons rfl hfinish StepSystem.execWhen_nil)),
        hstands₃.goes _, nofun, nofun⟩
  | @publish outcome hphase =>
      rw [pc, owed, hphase] at hstands
      obtain ⟨p', hboundary, hstands'⟩ := hstands.boundary outcome
      exact .inr ⟨_, p', StepSystem.execWhen_cons rfl hboundary StepSystem.execWhen_nil,
        hstands', nofun, fun _ => Nat.succ_ne_zero _⟩
  | cut hhard hphase =>
      have hcuttable : v.owed = 0 ∧ (v.pc = .running v.iterIndex ∨ v.pc = .stopping 0) := by
        rcases hphase with ⟨go, hinit⟩ | hiterating
        · have hzero := hearly (.inr ⟨go, hinit⟩)
          cases go with
          | true => simp only [owed, pc, hinit, true_or, and_self]
          | false => simp only [owed, pc, hinit, hzero, or_true, and_self]
        · simp only [owed, pc, hiterating, true_or, and_self]
      obtain ⟨howed, hpc⟩ := hcuttable
      rw [howed] at hstands
      obtain ⟨p', hcancel, hstands'⟩ := hstands.cut hhard hpc
      exact .inr ⟨_, p', StepSystem.execWhen_cons rfl hcancel StepSystem.execWhen_nil,
        hstands', nofun, nofun⟩

theorem Step.panicked (h : v.Step v') (hp : v.phase = .panicked) : v'.phase = .panicked := by
  cases h with
  | inside | fireHard => exact hp
  | panic => rfl
  | cut _ hphase => simp [hp] at hphase
  | first hphase | begin hphase | stop hphase | grant hphase | decline hphase
  | publish hphase => rw [hp] at hphase; cases hphase

end DriverView

theorem Coroutine.phase_eq_panicked (s : Coroutine μ ρ) :
    s.view.phase = .panicked ↔ s.pc = .panicked := by
  change s.pc.phase s.sig = .panicked ↔ _
  cases s.pc with
  | script site | awaitOne site | awaitAll site => cases site <;> simp [CoroutinePc.phase]
  | _ => simp [CoroutinePc.phase]

/-- The coroutine is built and its driver asks for the first iteration. -/
theorem driver_shows_new :
    ∃ fs p, driverSystem.AnyRun fs p ∧ (Coroutine.new : Coroutine μ ρ).view.Shows p := by
  have hnew : driverSystem.AnyRun [] .new := .start rfl
  have hbuilt := hnew.next trivial (DriverView.driver_step (.build rfl))
  have hasked := hbuilt.next trivial (DriverView.driver_step (@Vu.Steps.first Unit _ _ () rfl))
  exact ⟨_, _, hasked, ⟨rfl, rfl, rfl, rfl⟩, fun _ => rfl, nofun⟩

/-- Every run of a coroutine VU that has not panicked is a run of the driver of the pool:
with the same outcomes, the same token and the same counters. -/
theorem coroutine_refines_driver {es : List (CoroutineEvent μ ρ)} {s : Coroutine μ ρ}
    (h : (coroutineSystem μ ρ).AnyRun es s) (hpc : s.pc ≠ .panicked) :
    ∃ fs p, driverSystem.AnyRun fs p ∧ s.view.Shows p := by
  have hinit : ∀ s : Coroutine μ ρ, s = .new →
      ∃ fs p, driverSystem.AnyRun fs p ∧ (s.view.phase = .panicked ∨ s.view.Shows p) := by
    rintro s rfl
    obtain ⟨fs, p, hrun, hp⟩ := driver_shows_new (μ := μ) (ρ := ρ)
    exact ⟨fs, p, hrun, .inr hp⟩
  have hstep : ∀ (s : Coroutine μ ρ) e s' p, s.view.phase = .panicked ∨ s.view.Shows p →
      True → s.step e = some s' →
      ∃ fs p', driverSystem.execWhen (fun _ _ => true) p fs = some p' ∧
        (s'.view.phase = .panicked ∨ s'.view.Shows p') := by
    intro s e s' p hR _ hstep
    have hview := (Coroutine.steps_of_step hstep).view
    rcases hR with hphase | hp
    · exact ⟨[], p, rfl, .inl (hview.panicked hphase)⟩
    · rcases hview.matched hp with hphase | ⟨fs, p', hexec, hp'⟩
      · exact ⟨[], p, rfl, .inl hphase⟩
      · exact ⟨fs, p', hexec, .inr hp'⟩
  obtain ⟨fs, p, hrun, hp⟩ := h.simulate hinit hstep
  exact ⟨fs, p, hrun, hp.resolve_left fun hphase => hpc (s.phase_eq_panicked.mp hphase)⟩

/-! ## The counts of a coroutine that has ended -/

theorem driver_accounts {fs : List DriverEvent} {p : Pool 1 Unit} (h : driverSystem.AnyRun fs p) :
    p.Accounts := by
  refine h.invariant (fun p hp => ?_) fun p e p' hp _ hstep => ?_
  · subst hp
    exact Pool.accounts_new
  · cases e with
    | fireHard => cases hstep; exact ⟨hp.balanced, hp.booked⟩
    | vu e => exact hp.step hstep

theorem DriverView.total_counts (v : DriverView) :
    v.counts.total = v.published.length + v.interrupted := by
  obtain ⟨_, _, _, _, published, interrupted⟩ := v
  change published.count .completed + published.count .errored +
    (published.count .interrupted + interrupted) = published.length + interrupted
  induction published with
  | nil => simp
  | cons outcome published ih =>
      cases outcome with
      | completed => simp only [List.count_cons, List.length_cons]; simp; omega
      | errored => simp only [List.count_cons, List.length_cons]; simp; omega
      | interrupted => simp only [List.count_cons, List.length_cons]; simp; omega

/-- What a coroutine that has ended published, and its interruption, are the iterations
its driver started and a stray interruption of a script that was declined. -/
theorem coroutine_counts_iterations {es : List (CoroutineEvent μ ρ)} {s : Coroutine μ ρ}
    (h : (coroutineSystem μ ρ).AnyRun es s) (hpc : s.pc = .returned ∨ s.pc = .unwound) :
    ∃ fs p, driverSystem.AnyRun fs p ∧ p.Joined ∧ p.tally = s.view.counts ∧
      s.history.published.length + s.interrupted = p.started + p.strays := by
  have hphase : s.view.phase = .ended := by
    rcases hpc with hpc | hpc <;> simp only [Coroutine.view, hpc, CoroutinePc.phase]
  obtain ⟨fs, p, hrun, hp⟩ := coroutine_refines_driver h (by rcases hpc with h | h <;> simp [h])
  obtain ⟨hgone, -, -, htally⟩ := hp.stands
  rw [DriverView.pc, hphase] at hgone
  rw [DriverView.owed, hphase] at htally
  have hjoined : p.Joined := fun v => by rw [Subsingleton.elim v 0, hgone]
  refine ⟨fs, p, hrun, hjoined, htally, ?_⟩
  calc s.history.published.length + s.interrupted
      = s.view.counts.total := by
        rw [DriverView.total_counts, Coroutine.view, List.length_map]
    _ = p.tally.total := by rw [← htally]; rfl
    _ = p.started + p.strays := (driver_accounts hrun).total_of_joined hjoined

end K6Rs
