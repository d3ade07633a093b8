import K6Rs.Verification.Coroutine.Steps

/-! The outcome an iteration publishes. It is read from globals that the driver function
resets and that its callbacks write, so it tells the fate of its own iteration as long
as the reset happens or leaves no success behind, the callbacks that run are those of
this iteration, and a success that happened is recorded. -/

namespace K6Rs

variable {μ ρ : Type} {s s' : Coroutine μ ρ} {e : CoroutineEvent μ ρ}

/-- What becomes a text when it is recorded. -/
def Recorded (value : JsValue) (cut : Bool) : Prop := cut = false ∧ ∃ text, value = .printable text

/-- The step does not mix up the outcomes of two iterations, nor lose a success. -/
def CoroutineEvent.Faithful (s : Coroutine μ ρ) : CoroutineEvent μ ρ → Prop
  -- Cut off before the reset, the globals of the last iteration must not be a success.
  | .entryCut => s.globals.failed = true ∨ s.globals.done = false
  | .noExec => False
  | .proceed cut => ∀ value, s.pc = .script (.returned value) → Recorded value cut
  | .react iteration cut => iteration = s.iterIndex ∧
      ∀ value, s.promises iteration = .settled (.fulfilled value) true → Recorded value cut
  | .check => s.hard = true → ∀ value chained,
      s.promises s.iterIndex = .settled (.fulfilled value) chained → s.globals.done = true
  | _ => True

/-- The published outcome tells the fate of its iteration. -/
def Tells : PublishedOutcome × Option Fate × Bool → Prop
  | (outcome, some (.fulfilled value), _) =>
      ∃ text, value = .printable text ∧ outcome = .completed text
  | (outcome, some (.failed error), false) =>
      ∃ text, error = .printable text ∧ outcome = .errored text
  | (outcome, _, _) => outcome = .interrupted

namespace Coroutine

/-! ## What the globals tell within an iteration -/

/-- How far the iteration has come. -/
inductive Stage where
  | outside
  | calling
  /-- The exec function runs, or its end with this fate is being recorded. -/
  | running (fate : Option Fate)
  | looping
  | publishing
  | ended

def siteStage : Site → Stage
  | .init => .outside
  | .exec => .running none
  | .returned value => .running (some (.fulfilled value))
  | .caught error => .running (some (.failed error))
  | .jobs => .looping

def stage : CoroutinePc μ ρ → Stage
  | .script site | .awaitOne site | .awaitAll site _ => siteStage site
  | .calling => .calling
  | .chaining => .running none
  | .draining | .checking | .awaitPending => .looping
  | .publishing => .publishing
  | .returned | .unwound | .panicked => .ended
  | _ => .outside

/-- In the driver loop: success and failure in the globals are those of this iteration;
a failure may also be left from the last one if this one was cut off on entry. -/
structure Looping (g : Globals) (fate : Option Fate) (promise : ExecPromise) (hard : Bool) :
    Prop where
  success : g.done = true → g.failed = false → fate = some (.fulfilled (.printable g.ret))
  failure : g.failed = true → fate = some (.failed (.printable g.err)) ∨
    hard = true ∧ fate = none ∧ promise = .absent
  unrecorded : ∀ value, g.done = false → fate = some (.fulfilled value) →
    ∃ chained, promise = .settled (.fulfilled value) chained
  settled : ∀ f chained, promise = .settled f chained → fate = some f
  pending : ∀ chained, promise = .pending chained → fate = none

/-- What the globals tell at a stage. -/
def ToldAt (g : Globals) (fate : Option Fate) (promise : ExecPromise) (hard : Bool) : Stage → Prop
  | .outside => promise = .absent
  | .calling => promise = .absent ∧ fate = none
  | .running fate' =>
      promise = .absent ∧ fate = fate' ∧ g.done = false ∧ g.failed = false
  | .looping => Looping g fate promise hard
  | .publishing => Looping g fate promise hard ∧ (g.done = true ∨ hard = true) ∧
      ∀ value, fate = some (.fulfilled value) → g.done = true
  | .ended => True

/-- The globals tell the fate of the iteration, no later iteration has a promise, and
the published outcomes tell the fates of theirs. -/
structure Told (s : Coroutine μ ρ) : Prop where
  now : ToldAt s.globals s.history.fate (s.promises s.iterIndex) s.hard (stage s.pc)
  later : ∀ i, s.iterIndex < i → s.promises i = .absent
  published : ∀ p ∈ s.history.published, Tells p
  result : s.result = s.history.published.getLast?.map Prod.fst

theorem told_new : (new : Coroutine μ ρ).Told where
  now := rfl
  later _ _ := rfl
  published _ h := by cases h
  result := rfl

theorem looping_of_running {g : Globals} {fate : Option Fate} {hard : Bool}
    (hdone : g.done = false) (hfailed : g.failed = false)
    (hfate : ∀ value, fate ≠ some (.fulfilled value)) : Looping g fate .absent hard where
  success h := by rw [hdone] at h; cases h
  failure h := by rw [hfailed] at h; cases h
  unrecorded value _ h := (hfate value h).elim
  settled _ _ h := by cases h
  pending _ h := by cases h

theorem Looping.hard {g : Globals} {fate : Option Fate} {promise : ExecPromise} {hard : Bool}
    (h : Looping g fate promise hard) : Looping g fate promise true :=
  ⟨h.success, fun hf => (h.failure hf).imp_right fun h => ⟨rfl, h.2⟩, h.unrecorded, h.settled,
    h.pending⟩

/-- While the promise is pending nothing is recorded. -/
theorem Looping.blank {g : Globals} {fate : Option Fate} {chained hard : Bool}
    (h : Looping g fate (.pending chained) hard) : g.done = false ∧ g.failed = false := by
  have hfate := h.pending chained rfl
  have hfailed : g.failed = false := by
    rw [← Bool.not_eq_true]
    intro hf
    obtain hfate' | ⟨_, _, habsent⟩ := h.failure hf
    · rw [hfate] at hfate'
      cases hfate'
    · cases habsent
  refine ⟨?_, hfailed⟩
  rw [← Bool.not_eq_true]
  intro hdone
  have hfate' := h.success hdone hfailed
  rw [hfate] at hfate'
  cases hfate'

/-- The promise settles. -/
theorem Looping.settle {g : Globals} {fate : Option Fate} {chained hard : Bool}
    (h : Looping g fate (.pending chained) hard) (f : Fate) :
    Looping g (some f) (.settled f chained) hard := by
  obtain ⟨hdone, hfailed⟩ := h.blank
  refine ⟨?_, ?_, ?_, ?_, ?_⟩
  · intro h
    rw [hdone] at h
    cases h
  · intro h
    rw [hfailed] at h
    cases h
  · intro value _ hf
    cases hf
    exact ⟨chained, rfl⟩
  · intro f' chained' hf
    cases hf
    rfl
  · intro chained' hf
    cases hf

/-- The driver's callback for the settled promise is gone. -/
theorem Looping.unchain {g : Globals} {fate : Option Fate} {f : Fate} {hard : Bool}
    (h : Looping g fate (.settled f true) hard) : Looping g fate (.settled f false) hard := by
  have hfate := h.settled f true rfl
  refine ⟨h.success, fun hf => ?_, ?_, ?_, fun _ hf => (by cases hf)⟩
  · obtain hfailed | ⟨_, _, habsent⟩ := h.failure hf
    · exact .inl hfailed
    · cases habsent
  · intro value _ hvalue
    rw [hfate] at hvalue
    cases hvalue
    exact ⟨false, rfl⟩
  · intro f' chained hf
    cases hf
    exact hfate

theorem Looping.fail {g : Globals} {promise : ExecPromise} {hard : Bool} {text : String}
    (h : ∀ f chained, promise = .settled f chained → f = .failed (.printable text))
    (hpending : ∀ chained, promise ≠ .pending chained) :
    Looping (g.fail text) (some (.failed (.printable text))) promise hard where
  success _ hf := by cases hf
  failure _ := .inl rfl
  unrecorded _ hdone := by cases hdone
  settled f chained hf := by rw [h f chained hf]
  pending chained hf := (hpending chained hf).elim

theorem Looping.succeed {g : Globals} {promise : ExecPromise} {hard : Bool} {text : String}
    (hfailed : g.failed = false)
    (h : ∀ f chained, promise = .settled f chained → f = .fulfilled (.printable text))
    (hpending : ∀ chained, promise ≠ .pending chained) :
    Looping (g.succeed text) (some (.fulfilled (.printable text))) promise hard where
  success _ _ := rfl
  failure hf := by
    change g.failed = true at hf
    rw [hfailed] at hf
    cases hf
  unrecorded _ hdone := by cases hdone
  settled f chained hf := by rw [h f chained hf]
  pending chained hf := (hpending chained hf).elim

/-- The driver's callback for the settled promise runs. -/
theorem Looping.react {g : Globals} {fate : Option Fate} {f : Fate} {hard cut : Bool}
    (h : Looping g fate (.settled f true) hard)
    (hrecorded : ∀ value, f = .fulfilled value → Recorded value cut) :
    Looping (g.settle cut f) fate (.settled f false) hard := by
  have hfate := h.settled f true rfl
  subst hfate
  cases f with
  | fulfilled value =>
      obtain ⟨rfl, text, rfl⟩ := hrecorded value rfl
      have hfailed : g.failed = false := by
        rw [← Bool.not_eq_true]
        intro hf
        obtain hfate | ⟨_, hfate, _⟩ := h.failure hf
        · cases hfate
        · cases hfate
      exact .succeed hfailed (fun f chained hf => by cases hf; rfl) (fun _ hf => by cases hf)
  | failed error =>
      cases error with
      | printable text =>
          cases cut with
          | true => exact h.unchain
          | false => exact .fail (fun f chained hf => by cases hf; rfl) (fun _ hf => by cases hf)
      | throwing thrown => exact h.unchain

/-- What is published at the end of the loop. -/
theorem Looping.tells {g : Globals} {fate : Option Fate} {promise : ExecPromise} {hard : Bool}
    (h : Looping g fate promise hard) (hleft : g.done = true ∨ hard = true)
    (hrecorded : ∀ value, fate = some (.fulfilled value) → g.done = true) :
    Tells (classify hard g, fate, hard) := by
  cases hfailed : g.failed with
  | false =>
      cases hdone : g.done with
      | true =>
          rw [h.success hdone hfailed, classify, hfailed, hdone]
          exact ⟨g.ret, rfl, by simp⟩
      | false =>
          have hhard : hard = true := hleft.resolve_left (by simp [hdone])
          rw [classify, hfailed, hdone, hhard]
          cases fate with
          | none => rfl
          | some f =>
              cases f with
              | fulfilled value =>
                  have := hrecorded value rfl
                  rw [hdone] at this
                  cases this
              | failed error => rfl
  | true =>
      rw [classify, hfailed]
      obtain hfate | ⟨hhard, hfate, _⟩ := h.failure hfailed
      · rw [hfate]
        cases hard with
        | true => rfl
        | false => exact ⟨g.err, rfl, rfl⟩
      · rw [hfate, hhard]
        rfl

/-! ## The steps -/

/-- A promise that a later iteration cannot have. -/
private theorem later_update {promises : ℕ → ExecPromise} {index iteration : ℕ}
    {promise : ExecPromise} (hlater : ∀ i, index < i → promises i = .absent)
    (h : iteration ≤ index) :
    ∀ i, index < i → Function.update promises iteration promise i = .absent := by
  intro i hi
  rw [Function.update_of_ne (by omega)]
  exact hlater i hi

private theorem le_of_ne_absent (hs : s.Told) {iteration : ℕ}
    (h : s.promises iteration ≠ .absent) : iteration ≤ s.iterIndex := by
  by_contra hlt
  exact h (hs.later iteration (by omega))

private theorem toldAt_settle {g : Globals} {fate : Option Fate} {chained hard : Bool}
    {pc : CoroutinePc μ ρ} (hcan : canSettle pc = true)
    (h : ToldAt g fate (.pending chained) hard (stage pc)) (f : Fate) :
    ToldAt g (some f) (.settled f chained) hard (stage pc) := by
  -- Only in the driver loop does the iteration have a promise.
  have hlooping : stage pc = .looping := by
    cases hstage : stage pc with
    | looping => rfl
    | outside => rw [hstage] at h; cases h
    | calling | running => rw [hstage] at h; cases h.1
    | publishing | ended => cases pc with
      | script site => cases site <;> cases hstage
      | draining => cases hstage
      | _ => cases hcan
  rw [hlooping] at h ⊢
  exact Looping.settle h f

private theorem Told.settle {iteration : ℕ} {fate : Fate} {chained : Bool} (hs : s.Told)
    (hcan : canSettle s.pc = true) (hpending : s.promises iteration = .pending chained) :
    ({ s with
      promises := Function.update s.promises iteration (.settled fate chained)
      history := { s.history with
        fate := if iteration = s.iterIndex then some fate else s.history.fate } } :
      Coroutine μ ρ).Told := by
  have hle := le_of_ne_absent hs (by rw [hpending]; exact fun h => by cases h)
  refine ⟨?_, later_update hs.later hle, hs.published, hs.result⟩
  have hnow := hs.now
  by_cases hown : iteration = s.iterIndex
  · subst hown
    rw [hpending] at hnow
    simpa using toldAt_settle hcan hnow fate
  · simpa [hown, Function.update_of_ne (Ne.symm hown)] using hnow

private theorem toldAt_hard {g : Globals} {fate : Option Fate} {promise : ExecPromise} {hard : Bool}
    {stage : Stage} (h : ToldAt g fate promise hard stage) : ToldAt g fate promise true stage := by
  cases stage with
  | looping => exact Looping.hard h
  | publishing => exact ⟨Looping.hard h.1, .inr rfl, h.2.2⟩
  | _ => exact h

private theorem Told.chain {cut : Bool} (hs : s.Told) (hpc : s.pc = .chaining) :
    ({ s with
      pc := .draining
      promises := Function.update s.promises s.iterIndex (.pending !cut) } :
      Coroutine μ ρ).Told := by
  have hnow := hs.now
  rw [hpc] at hnow
  obtain ⟨_, hfate, hdone, hfailed⟩ := hnow
  refine ⟨?_, later_update hs.later (Nat.le_refl _), hs.published, hs.result⟩
  simp only [Function.update_self]
  refine ⟨fun h => ?_, fun h => ?_, fun value _ h => ?_, fun f chained h => (by cases h),
    fun _ _ => hfate⟩
  · rw [hdone] at h
    cases h
  · rw [hfailed] at h
    cases h
  · rw [hfate] at h
    cases h

private theorem Told.react {iteration : ℕ} {fate : Fate} {cut : Bool} (hs : s.Told)
    (hpc : s.pc = .script .jobs) (hsettled : s.promises iteration = .settled fate true)
    (hown : iteration = s.iterIndex)
    (hrecorded : ∀ value, s.promises iteration = .settled (.fulfilled value) true →
      Recorded value cut) :
    ({ s with
      promises := Function.update s.promises iteration (.settled fate false)
      globals := s.globals.settle cut fate } : Coroutine μ ρ).Told := by
  subst hown
  have hnow := hs.now
  rw [hpc, hsettled] at hnow
  refine ⟨?_, later_update hs.later (Nat.le_refl _), hs.published, hs.result⟩
  simp only [hpc, Function.update_self]
  apply Looping.react hnow
  rintro value rfl
  exact hrecorded value hsettled

private theorem Told.leave (hs : s.Told) (he : CoroutineEvent.check.Faithful s)
    (hpc : s.pc = .checking)
    (hdone : (s.globals.done = true ∧ s.shared.outstanding = 0) ∨ s.hard = true) :
    s.leave.Told := by
  have hnow := hs.now
  rw [hpc] at hnow
  refine ⟨⟨hnow, hdone.imp_left And.left, ?_⟩, hs.later, hs.published, hs.result⟩
  intro value hfate
  change s.globals.done = true
  by_contra hnot
  have hhard : s.hard = true := hdone.resolve_left fun h => hnot h.1
  obtain ⟨chained, hpromise⟩ := Looping.unrecorded hnow value (by simpa using hnot) hfate
  exact hnot (he hhard value chained hpromise)

private theorem Told.publish (hs : s.Told) (hpc : s.pc = .publishing) : s.publish.Told := by
  have hnow := hs.now
  rw [hpc] at hnow
  obtain ⟨hlooping, hleft, hrecorded⟩ := hnow
  refine ⟨hs.later _ (Nat.lt_succ_self _), fun i hi => hs.later i (by
    change s.iterIndex + 1 < i at hi
    omega), ?_, ?_⟩
  · intro p hp
    rcases List.mem_append.mp hp with hp | hp
    · exact hs.published p hp
    · rw [List.mem_singleton.mp hp]
      exact hlooping.tells hleft hrecorded
  · simp [Coroutine.publish]

private theorem Told.entryCut (hs : s.Told) (he : CoroutineEvent.entryCut.Faithful s)
    (hpc : s.pc = .calling) (hhard : s.hard = true) :
    ({ s with pc := .draining } : Coroutine μ ρ).Told := by
  have hnow := hs.now
  rw [hpc] at hnow
  obtain ⟨hpromise, hfate⟩ := hnow
  refine ⟨⟨?_, fun _ => .inr ⟨hhard, hfate, hpromise⟩, ?_, ?_, fun _ _ => hfate⟩, hs.later,
    hs.published, hs.result⟩
  · intro hdone hfailed
    obtain hf | hd := he
    · rw [hf] at hfailed
      cases hfailed
    · rw [hd] at hdone
      cases hdone
  · intro value _ h
    rw [hfate] at h
    cases h
  · intro f chained h
    rw [hpromise] at h
    cases h

/-- The driver function ends without a record of a success. -/
private theorem Told.unrecorded {pc : CoroutinePc μ ρ} {fate : Option Fate} (hs : s.Told)
    (hpc : s.pc = pc) (hstage : stage pc = .running fate)
    (hfate : ∀ value, fate ≠ some (.fulfilled value)) :
    ({ s with pc := .draining } : Coroutine μ ρ).Told := by
  have hnow := hs.now
  rw [hpc, hstage] at hnow
  obtain ⟨hpromise, rfl, hdone, hfailed⟩ := hnow
  refine ⟨?_, hs.later, hs.published, hs.result⟩
  simp only [hpromise]
  exact looping_of_running hdone hfailed hfate

theorem Told.step (hs : s.Told) (he : e.Faithful s) (h : Steps s e s') : s'.Told := by
  have hnow := hs.now
  cases h with
  | fireHard => exact ⟨toldAt_hard hnow, hs.later, hs.published, hs.result⟩
  | settle hcan hpending => exact hs.settle hcan hpending
  | chain hpc hcut => exact hs.chain hpc
  | react hpc hcut hsettled => exact hs.react hpc hsettled he.1 he.2
  | publish hpc => exact hs.publish hpc
  | leave hpc hdone => exact hs.leave he hpc hdone
  | entryCut hpc hhard => exact hs.entryCut he hpc hhard
  | noExec hpc => exact he.elim
  | start hpc =>
      rw [hpc] at hnow
      exact ⟨⟨hnow, rfl⟩, hs.later, hs.published, hs.result⟩
  | call hpc =>
      rw [hpc] at hnow
      exact ⟨⟨hnow.1, hnow.2, rfl, rfl⟩, hs.later, hs.published, hs.result⟩
  | execReturn hpc | execThrow hpc =>
      rw [hpc] at hnow
      exact ⟨⟨hnow.1, rfl, hnow.2.2⟩, hs.later, hs.published, hs.result⟩
  | execCut hpc hhard => exact hs.unrecorded hpc rfl (fun _ h => by cases h)
  | convertCut hpc hhard =>
      obtain ⟨value, hpc⟩ | ⟨error, hpc⟩ := hpc
      · cases (he value hpc).1
      · exact hs.unrecorded hpc rfl (fun _ h => by cases h)
  | succeed hpc =>
      rw [hpc] at hnow
      obtain ⟨hpromise, hfate, hdone, hfailed⟩ := hnow
      refine ⟨?_, hs.later, hs.published, hs.result⟩
      simp only [hpromise, hfate]
      exact .succeed hfailed (fun _ _ h => by cases h) (fun _ h => by cases h)
  | rethrow hpc =>
      obtain ⟨_, text, hvalue⟩ := he _ hpc
      cases hvalue
  | fail hpc =>
      rw [hpc] at hnow
      obtain ⟨hpromise, hfate, hdone, hfailed⟩ := hnow
      refine ⟨?_, hs.later, hs.published, hs.result⟩
      simp only [hpromise, hfate]
      exact .fail (fun _ _ h => by cases h) (fun _ h => by cases h)
  | uncaught hpc => exact hs.unrecorded hpc rfl (fun _ h => by cases h)
  | initEnd hpc =>
      rw [hpc] at hnow
      refine ⟨?_, hs.later, hs.published, hs.result⟩
      simp only
      split
      · exact hnow
      · trivial
  | register | queue => exact ⟨hnow, hs.later, hs.published, hs.result⟩
  | decline | batchPanic | drainPanic | hardCancel =>
      exact ⟨trivial, hs.later, hs.published, hs.result⟩
  | first hpc | grant hpc | awaitOne hpc | awaitAll hpc | wake hop hpc | opDone hpc
  | batchDone hpc | batchResume hpc | drain hpc | jobsEnd hpc | awaitPending hpc
  | execPromise hpc =>
      rw [hpc] at hnow
      exact ⟨hnow, hs.later, hs.published, hs.result⟩

end Coroutine

open Coroutine

/-- In every run of faithful steps, each published outcome tells the fate of its own
iteration, and the control reads the outcome of the last one. -/
theorem coroutine_outcomes_tell {es : List (CoroutineEvent μ ρ)}
    (hrun : (coroutineSystem μ ρ).Runs (fun s e => e.Faithful s) es s) :
    (∀ p ∈ s.history.published, Tells p) ∧
      s.result = s.history.published.getLast?.map Prod.fst := by
  have htold : s.Told := hrun.invariant (fun _ hs => hs ▸ told_new) fun _ _ _ hs he hstep =>
    hs.step he (steps_of_step hstep)
  exact ⟨htold.published, htold.result⟩

/-- A check that suffices for a step to be faithful. -/
private def plain (s : Coroutine μ ρ) : CoroutineEvent μ ρ → Bool
  | .entryCut | .noExec | .react _ _ => false
  | .proceed cut =>
      match s.pc with
      | .script (.returned (.printable _)) => !cut
      | .script (.returned (.throwing _)) => false
      | _ => true
  | .check => !s.hard
  | _ => true

private theorem faithful_of_plain (h : plain s e = true) : e.Faithful s := by
  cases e with
  | entryCut | noExec | react => cases h
  | proceed cut =>
      intro value hpc
      simp only [plain, hpc] at h
      cases value with
      | printable text => exact ⟨by simpa using h, text, rfl⟩
      | throwing thrown => cases h
  | check =>
      intro hhard
      simp [plain, hhard] at h
  | _ => trivial

/-- One iteration returns a value, and the next one throws. -/
private def returnThrow : List (CoroutineEvent ℕ ℕ) :=
  [.next true, .initEnd, .start, .call, .execReturn (.printable "ok"), .proceed false, .drain,
    .jobsEnd, .check, .publish, .next true, .start, .call, .execThrow (.printable "Error"),
    .proceed false, .drain, .jobsEnd, .check, .publish]

theorem coroutine_outcomes_tell_returnThrow : ∃ s : Coroutine ℕ ℕ,
    ((∀ p ∈ s.history.published, Tells p) ∧
      s.result = s.history.published.getLast?.map Prod.fst) ∧
      s.history.published.map Prod.fst = [.completed "ok", .errored "Error"] := by
  obtain ⟨s, hrun, hpublished⟩ :=
    (coroutineSystem ℕ ℕ).exists_runs_of_execWhen returnThrow (B := plain)
      (P := fun s => s.history.published.map Prod.fst = [.completed "ok", .errored "Error"])
      rfl (by decide)
  exact ⟨s, coroutine_outcomes_tell (hrun.mono fun _ _ => faithful_of_plain), hpublished⟩

/-- The interrupt breaks the second iteration on entry, before the driver function has
reset the globals. -/
def cutOnEntry : List (CoroutineEvent ℕ ℕ) :=
  [.next true, .initEnd, .start, .call, .execReturn (.printable "ok"), .proceed false, .drain,
    .jobsEnd, .check, .publish, .next true, .fireHard, .start, .entryCut, .drain, .jobsEnd, .check,
    .publish]

theorem not_outcomes_tell_cutOnEntry : ∃ s : Coroutine ℕ ℕ,
    (coroutineSystem ℕ ℕ).AnyRun cutOnEntry s ∧ s.result = some (.completed "ok") ∧
      (.completed "ok", none, true) ∈ s.history.published ∧
      ¬∀ p ∈ s.history.published, Tells p := by
  obtain ⟨s, hrun, hresult, hpublished⟩ :=
    (coroutineSystem ℕ ℕ).exists_run_of_exec cutOnEntry
      (P := fun s => s.result = some (.completed "ok") ∧
        (.completed "ok", none, true) ∈ s.history.published) rfl (by decide)
  refine ⟨s, hrun, hresult, hpublished, fun h => ?_⟩
  cases h _ hpublished

end K6Rs
