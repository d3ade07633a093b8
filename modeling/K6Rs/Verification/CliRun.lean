import K6Rs.Model.CliRun
import K6Rs.Verification.Control

/-! # The reported status and the exit code

The end of the run derives the status from the stop, and the command its exit code. A stop
that comes between the two is in the exit code alone. -/

namespace K6Rs

namespace Control

variable {n : ℕ} {reader : JsonReader} {c c' : Control n}

/-- A patch leaves the status and the end alone, and stops when it says so. -/
theorem Applies.execution {patch : Patch} {reply : Except ApiError Unit}
    (h : Applies c patch c' reply) :
    c'.execution.status = c.execution.status ∧ c'.execution.ended = c.execution.ended ∧
      c'.execution.stopped = (c.execution.stopped || patch.stopped) := by
  cases h with
  | stop h =>
      rw [stop_execution]
      simp [h]
  | keep h hp hs => simp [h]
  | rejected e h he => simp [h]
  | resume reply h hstarted hpaused hreply =>
      rw [(notifies_notifyOne _).execution]
      simp [h]

/-- The patch of a request, when it stops the run. -/
def Stops (reader : JsonReader) (body : List UInt8) : Prop :=
  ∃ p, parsePatch reader body = .ok p ∧ p.stopped = true

theorem patch_execution (reader : JsonReader) (c : Control n) (body : List UInt8) :
    (c.patch reader body).1.execution.status = c.execution.status ∧
      (c.patch reader body).1.execution.ended = c.execution.ended ∧
      ((c.patch reader body).1.execution.stopped = true ↔
        c.execution.stopped = true ∨ Stops reader body) := by
  rcases c.patch_cases reader body with ⟨detail, hparse, heq⟩ | ⟨p, hparse, happlies⟩
  · rw [heq]
    simp [Stops, hparse]
  · have hexec := happlies.execution
    simp [hexec, Stops, hparse]

theorem ended_step {e : Event n} (h : c.step reader e = some c') (he : ∀ now, e ≠ .finish now) :
    c'.execution.ended = c.execution.ended := by
  cases e with
  | patch body =>
      cases h
      exact (c.patch_execution reader body).2.1
  | look w now =>
      simp only [step] at h
      (repeat' split at h) <;> cases h <;> rfl
  | wait w | poll w | awake w =>
      simp only [step] at h
      (repeat' split at h) <;> cases h <;> rfl
  | giveUp w =>
      simp only [step] at h
      split at h
      · split at h <;> cases h
        · rfl
        · rfl
        · rw [(notifies_notifyOne _).execution]
          rfl
      · cases h
  | phase status | interrupt =>
      cases h
      rfl
  | finish now => exact absurd rfl (he now)

end Control

namespace CliRun

variable {reader : JsonReader} {r r' : CliRun}

/-- After the end, the status tells of a stop exactly when there was one, and so does an exit
code that was chosen. -/
def Agrees (r : CliRun) : Prop :=
  r.control.execution.ended.isSome = true →
    (r.control.execution.status = 10 ↔ r.control.execution.stopped = true) ∧
      ∀ code, r.pc = .exited code → (code = 103 ↔ r.control.execution.status = 10)

/-- A patch stops, after its end, an execution that was not stopped. -/
def StopsLate (reader : JsonReader) (r : CliRun) : Event → Prop
  | .patch body => r.control.execution.ended.isSome = true ∧
      r.control.execution.stopped = false ∧ Control.Stops reader body
  | _ => False

/-- Where the command stands before the execution ends. -/
def beforeEnd : CliPc → Bool
  | .flushing | .shutdown _ | .exited _ | .failed => false
  | _ => true

/-- Where it stands after the execution has ended; an error can come before and after. -/
def afterEnd : CliPc → Bool
  | .flushing | .shutdown _ | .exited _ => true
  | _ => false

structure Invariant (r : CliRun) : Prop where
  before : beforeEnd r.pc = true → r.control.execution.ended = none
  after : afterEnd r.pc = true → r.control.execution.ended.isSome = true
  status : r.control.execution.ended.isSome = true → r.control.execution.status = 9 ∨
    (r.control.execution.status = 10 ∧ r.control.execution.stopped = true)
  code : ∀ code, r.pc = .exited code → (code = 103 ↔ r.control.execution.stopped = true)

theorem Invariant.of_open (hended : r.control.execution.ended = none)
    (hpc : afterEnd r.pc = false) : Invariant r := by
  refine ⟨fun _ => hended, fun h => ?_, fun h => ?_, fun code h => ?_⟩
  · rw [hpc] at h
    cases h
  · rw [hended] at h
    cases h
  · rw [h] at hpc
    cases hpc

theorem controlled_eq {e : Control.Event 1} {pc : Control 1 → CliPc}
    (h : r.controlled reader e pc = some r') :
    ∃ c', r.control.step reader e = some c' ∧ r' = { r with control := c', pc := pc c' } := by
  rw [controlled, Option.map_eq_some_iff] at h
  obtain ⟨c', hstep, rfl⟩ := h
  exact ⟨c', hstep, rfl⟩

/-- The command goes from a place before the end to another one. -/
theorem Invariant.controlled (h : Invariant r) {e : Control.Event 1} {pc : Control 1 → CliPc}
    (hbefore : beforeEnd r.pc = true) (he : ∀ now, e ≠ .finish now)
    (hpc : ∀ c, afterEnd (pc c) = false) (hs : r.controlled reader e pc = some r') :
    Invariant r' := by
  obtain ⟨c', hstep, rfl⟩ := controlled_eq hs
  exact .of_open ((Control.ended_step hstep he).trans (h.before hbefore)) (hpc c')

theorem Invariant.waitForStart (h : Invariant r) {e : Control.Event 1}
    (he : ∀ now, e ≠ .finish now) (hs : r.waitForStart reader e = some r') : Invariant r' := by
  rw [CliRun.waitForStart] at hs
  split at hs
  · rename_i hpc
    refine h.controlled (by rw [hpc]; rfl) he (fun c => ?_) hs
    split <;> rfl
  · cases hs

theorem fromOutside_eq {e : Control.Event 1} (hs : r.fromOutside reader e = some r') :
    r.gone = false ∧ ∃ c', r.control.step reader e = some c' ∧ r' = { r with control := c' } := by
  rw [fromOutside] at hs
  split at hs
  · cases hs
  · rename_i hgone
    exact ⟨by simpa using hgone, controlled_eq hs⟩

theorem Invariant.patch {body : List UInt8} (h : Invariant r)
    (hs : r.step reader (.patch body) = some r') : Invariant r' := by
  obtain ⟨hgone, c', hstep, rfl⟩ := fromOutside_eq hs
  cases hstep
  obtain ⟨hstatus, hended, hstopped⟩ := r.control.patch_execution reader body
  refine ⟨fun hb => ?_, fun ha => ?_, fun he => ?_, fun code hpc => ?_⟩
  · exact hended.trans (h.before hb)
  · exact (congrArg Option.isSome hended).trans (h.after ha)
  · rcases h.status ((congrArg Option.isSome hended).symm.trans he) with hnine | ⟨hten, hstop⟩
    · exact .inl (hstatus.trans hnine)
    · exact .inr ⟨hstatus.trans hten, hstopped.mpr (.inl hstop)⟩
  · simp only [gone, show r.pc = .exited code from hpc] at hgone
    cases hgone

theorem Invariant.finish {now : ℕ} (hs : r.step reader (.finish now) = some r') :
    Invariant r' := by
  simp only [step] at hs
  split at hs
  · obtain ⟨c', hstep, rfl⟩ := controlled_eq hs
    cases hstep
    refine ⟨by simp [beforeEnd], fun _ => rfl, fun _ => ?_, by simp⟩
    cases hstopped : r.control.execution.stopped with
    | true => exact .inr ⟨rfl, rfl⟩
    | false => exact .inl rfl
  · cases hs

theorem Invariant.exit (h : Invariant r) (hs : r.step reader .exit = some r') :
    Invariant r' := by
  simp only [step] at hs
  split at hs
  · rename_i thresholdsFailed hpc
    cases hs
    refine ⟨by simp [beforeEnd], fun _ => h.after (by rw [hpc]; rfl), h.status,
      fun code hcode => ?_⟩
    cases hcode
    rw [exitCode]
    split
    · rename_i hstopped
      simp [hstopped]
    · rename_i hrunning
      split <;> simp [hrunning]
  · cases hs

theorem Invariant.step {e : Event} (h : Invariant r) (hs : r.step reader e = some r') :
    Invariant r' := by
  cases e with
  | patch body => exact h.patch hs
  | interrupt =>
      obtain ⟨_, c', hstep, rfl⟩ := fromOutside_eq hs
      cases hstep
      exact ⟨h.before, h.after, h.status, h.code⟩
  | wait | look now | poll | awake | giveUp => exact h.waitForStart (by simp) hs
  | beginSetup =>
      simp only [CliRun.step] at hs
      split at hs
      · rename_i start hpc
        split at hs
        · exact h.controlled (by rw [hpc]; rfl) (by simp) (fun _ => rfl) hs
        · cases hs
          exact .of_open (h.before (by rw [hpc]; rfl)) rfl
      · cases hs
  | setupDone ok =>
      simp only [CliRun.step] at hs
      split at hs
      · rename_i hpc
        cases hs
        refine .of_open (h.before (by rw [hpc]; rfl)) ?_
        change afterEnd (if _ then _ else _) = false
        split <;> rfl
      · cases hs
  | beginScenarios =>
      simp only [CliRun.step] at hs
      split at hs
      · rename_i start hpc
        exact h.controlled (by rw [hpc]; rfl) (by simp) (fun _ => rfl) hs
      · cases hs
  | scenariosDone ok =>
      simp only [CliRun.step] at hs
      split at hs
      · rename_i start hpc
        have hended := h.before (by rw [hpc]; rfl)
        split at hs
        · cases hs
          exact .of_open hended rfl
        · split at hs
          · exact h.controlled (by rw [hpc]; rfl) (by simp) (fun _ => rfl) hs
          · cases hs
            exact .of_open hended rfl
      · cases hs
  | teardownDone ok =>
      simp only [CliRun.step] at hs
      split at hs
      · rename_i hpc
        cases hs
        refine .of_open (h.before (by rw [hpc]; rfl)) ?_
        cases ok <;> rfl
      · cases hs
  | finish now => exact .finish hs
  | flushed ok thresholdsFailed =>
      simp only [CliRun.step] at hs
      split at hs
      · rename_i hpc
        cases hs
        have hended := h.after (by rw [hpc]; rfl)
        refine ⟨?_, fun _ => hended, h.status, ?_⟩
        · cases ok <;> simp [beforeEnd]
        · cases ok <;> simp
      · cases hs
  | exit => exact h.exit hs

theorem Invariant.init (h : (cliSystem reader).init r) : Invariant r := by
  obtain ⟨paused, executor, scenario, cancel, noSetup, noTeardown, rfl⟩ := h
  exact .of_open rfl rfl

/-! ## Late stops -/

/-- In a state that a run can reach, the two agree when the stop is in the status. -/
theorem Invariant.agrees_iff (h : Invariant r) :
    r.Agrees ↔ (r.control.execution.ended.isSome = true → r.control.execution.stopped = true →
      r.control.execution.status = 10) := by
  constructor
  · intro hagrees hended
    exact (hagrees hended).1.mpr
  · intro hstatus hended
    have hiff : r.control.execution.status = 10 ↔ r.control.execution.stopped = true := by
      refine ⟨fun hten => ?_, hstatus hended⟩
      rcases h.status hended with hnine | ⟨_, hstopped⟩
      · rw [hnine] at hten
        cases hten
      · exact hstopped
    exact ⟨hiff, fun code hcode => (h.code code hcode).trans hiff.symm⟩

theorem waitForStart_pc {e : Control.Event 1} (hs : r.waitForStart reader e = some r') :
    r.pc = .waiting := by
  rw [waitForStart] at hs
  split at hs
  · assumption
  · cases hs

/-- A step that is no patch leaves an execution alone that has ended. -/
theorem Invariant.ended_execution {e : Event} (h : Invariant r)
    (hended : r.control.execution.ended.isSome = true) (he : ∀ body, e ≠ .patch body)
    (hs : r.step reader e = some r') : r'.control.execution = r.control.execution := by
  have hnot : beforeEnd r.pc = false := by
    by_contra hbefore
    rw [h.before (by simpa using hbefore)] at hended
    cases hended
  cases e with
  | patch body => exact absurd rfl (he body)
  | interrupt =>
      obtain ⟨_, c', hstep, rfl⟩ := fromOutside_eq hs
      cases hstep
      rfl
  | wait | look now | poll | awake | giveUp =>
      rw [waitForStart_pc hs] at hnot
      cases hnot
  | flushed ok thresholdsFailed | exit =>
      simp only [CliRun.step] at hs
      split at hs <;> cases hs
      rfl
  | beginSetup | setupDone ok | beginScenarios | scenariosDone ok | teardownDone ok | finish now =>
      simp only [CliRun.step] at hs
      split at hs
      · rename_i hpc
        rw [hpc] at hnot
        cases hnot
      · cases hs

theorem patch_eq {body : List UInt8} (hs : r.step reader (.patch body) = some r') :
    r'.control = (r.control.patch reader body).1 := by
  obtain ⟨_, c', hstep, rfl⟩ := fromOutside_eq hs
  cases hstep
  rfl

theorem ended_of_controlled {e : Control.Event 1} {pc : Control 1 → CliPc}
    (he : ∀ now, e ≠ .finish now) (hs : r.controlled reader e pc = some r') :
    r'.control.execution.ended = r.control.execution.ended := by
  obtain ⟨c', hstep, rfl⟩ := controlled_eq hs
  exact Control.ended_step hstep he

/-- Only the end ends the execution. -/
theorem ended_step {e : Event} (he : ∀ now, e ≠ .finish now) (hs : r.step reader e = some r') :
    r'.control.execution.ended = r.control.execution.ended := by
  cases e with
  | finish now => exact absurd rfl (he now)
  | patch body =>
      rw [patch_eq hs]
      exact (r.control.patch_execution reader body).2.1
  | interrupt =>
      obtain ⟨_, c', hstep, rfl⟩ := fromOutside_eq hs
      exact Control.ended_step hstep (by simp)
  | wait | look now | poll | awake | giveUp =>
      simp only [CliRun.step, waitForStart] at hs
      split at hs
      · exact ended_of_controlled (by simp) hs
      · cases hs
  | setupDone ok | teardownDone ok | flushed ok thresholdsFailed | exit =>
      simp only [CliRun.step] at hs
      split at hs <;> cases hs
      rfl
  | beginSetup =>
      simp only [CliRun.step] at hs
      split at hs
      · split at hs
        · exact ended_of_controlled (by simp) hs
        · cases hs
          rfl
      · cases hs
  | beginScenarios =>
      simp only [CliRun.step] at hs
      split at hs
      · exact ended_of_controlled (by simp) hs
      · cases hs
  | scenariosDone ok =>
      simp only [CliRun.step] at hs
      split at hs
      · split at hs
        · cases hs
          rfl
        · split at hs
          · exact ended_of_controlled (by simp) hs
          · cases hs
            rfl
      · cases hs

theorem finish_status {now : ℕ} (hs : r.step reader (.finish now) = some r')
    (hstopped : r'.control.execution.stopped = true) : r'.control.execution.status = 10 := by
  simp only [step] at hs
  split at hs
  · obtain ⟨c', hstep, rfl⟩ := controlled_eq hs
    cases hstep
    exact if_pos hstopped
  · cases hs

/-- A step other than a late stop keeps the agreement. -/
theorem Invariant.agrees_step {e : Event} (h : Invariant r) (hlate : ¬r.StopsLate reader e)
    (hs : r.step reader e = some r') (hagrees : r.Agrees) : r'.Agrees := by
  rw [(h.step hs).agrees_iff]
  rw [h.agrees_iff] at hagrees
  intro hended hstopped
  by_cases hfinish : ∃ now, e = .finish now
  · obtain ⟨now, rfl⟩ := hfinish
    exact finish_status hs hstopped
  · rw [not_exists] at hfinish
    rw [ended_step hfinish hs] at hended
    by_cases hpatch : ∃ body, e = .patch body
    · obtain ⟨body, rfl⟩ := hpatch
      obtain ⟨hstatus, _, hstop⟩ := r.control.patch_execution reader body
      rw [patch_eq hs] at hstopped ⊢
      rw [hstatus]
      rcases hstop.mp hstopped with hbefore | hnow
      · exact hagrees hended hbefore
      · refine hagrees hended ?_
        by_contra hrunning
        exact hlate ⟨hended, by simpa using hrunning, hnow⟩
    · rw [not_exists] at hpatch
      have hsame := h.ended_execution hended hpatch hs
      rw [hsame] at hstopped ⊢
      exact hagrees hended hstopped

/-- No step brings an agreement back. -/
theorem Invariant.agrees_of_step {e : Event} (h : Invariant r) (hs : r.step reader e = some r')
    (hagrees : r'.Agrees) : r.Agrees := by
  rw [(h.step hs).agrees_iff] at hagrees
  rw [h.agrees_iff]
  intro hended hstopped
  by_cases hpatch : ∃ body, e = .patch body
  · obtain ⟨body, rfl⟩ := hpatch
    obtain ⟨hstatus, hsame, hstop⟩ := r.control.patch_execution reader body
    rw [patch_eq hs, hstatus, hsame] at hagrees
    exact hagrees hended (hstop.mpr (.inl hstopped))
  · rw [not_exists] at hpatch
    rw [h.ended_execution hended hpatch hs] at hagrees
    exact hagrees hended hstopped

theorem Invariant.not_agrees_of_stopsLate {e : Event} (h : Invariant r)
    (hlate : r.StopsLate reader e) (hs : r.step reader e = some r') : ¬r'.Agrees := by
  cases e with
  | patch body =>
      obtain ⟨hended, hrunning, hstop⟩ := hlate
      obtain ⟨hstatus, hsame, hstops⟩ := r.control.patch_execution reader body
      rw [(h.step hs).agrees_iff, patch_eq hs, hstatus, hsame]
      intro hagrees
      have hten := hagrees hended (hstops.mpr (.inr hstop))
      rcases h.status hended with hnine | ⟨_, hstopped⟩
      · rw [hnine] at hten
        cases hten
      · rw [hrunning] at hstopped
        cases hstopped
  | _ => exact hlate.elim

end CliRun

/-- A run ends with a status and an exit code that agree about the stop exactly when no stop
came after the end of an execution that had not been stopped before. -/
theorem agrees_iff_no_late_stop {reader : JsonReader} {es : List CliRun.Event} {r : CliRun}
    (h : (cliSystem reader).AnyRun es r) :
    r.Agrees ↔ (cliSystem reader).Runs (fun r e => ¬r.StopsLate reader e) es r := by
  refine h.holds_iff_avoids (I := CliRun.Invariant) (fun r hinit => ?_)
    (fun r e r' hinv hs => hinv.step hs) fun r e r' hinv hs => ⟨fun hagrees => ?_, fun hboth => ?_⟩
  · have hinv := CliRun.Invariant.init hinit
    refine ⟨hinv, hinv.agrees_iff.mpr fun hended => ?_⟩
    obtain ⟨_, _, _, _, _, _, rfl⟩ := hinit
    cases hended
  · exact ⟨hinv.agrees_of_step hs hagrees,
      fun hlate => hinv.not_agrees_of_stopsLate hlate hs hagrees⟩
  · exact hinv.agrees_step hboth.2 hs hboth.1

/-! ### A stop while the outputs are flushed -/

namespace CliRun

def stopBody : List UInt8 :=
  "\x7b\"data\":\x7b\"attributes\":\x7b\"stopped\":true\x7d\x7d\x7d".toUTF8.toList

/-- A reader of the body that stops a run. -/
def stopReader : JsonReader where
  fromSlice body :=
    if body = stopBody then
      .ok (.object [("data".toList, .object [("attributes".toList,
        .object [("stopped".toList, .bool true)])])])
    else .error ⟨false, "expected value at line 1 column 1".toList⟩
  debug s := s

/-- The events of a run up to its end. -/
def toEnd : List Event :=
  [.wait, .look 0, .beginSetup, .setupDone true, .beginScenarios, .scenariosDone true,
    .teardownDone true, .finish 9]

end CliRun

/-- The stop during the flush makes the exit code 103 while the status says that the run has
finished. -/
theorem late_stop_disagrees : ¬∀ (reader : JsonReader) (es : List CliRun.Event) (r : CliRun),
    (cliSystem reader).AnyRun es r → r.Agrees := by
  intro hclaim
  obtain ⟨r, hrun, hpc, hstatus, hended⟩ : ∃ r, (cliSystem CliRun.stopReader).AnyRun
      (CliRun.toEnd ++ [.patch CliRun.stopBody, .flushed true false, .exit]) r ∧
      r.pc = .exited 103 ∧ r.control.execution.status = 9 ∧
      r.control.execution.ended.isSome = true :=
    StepSystem.exists_run_of_exec _ (s := .new false [] [] false false false)
      (by exact ⟨_, _, _, _, _, _, rfl⟩) (by decide +kernel)
  have hten := ((hclaim _ _ _ hrun hended).2 103 hpc).mp rfl
  rw [hstatus] at hten
  cases hten

/-- A stop before the end is in both. -/
theorem agrees_iff_no_late_stop_stopped : ∃ es r, r.pc = .exited 103 ∧
    (r.Agrees ↔ (cliSystem CliRun.stopReader).Runs
      (fun r e => ¬r.StopsLate CliRun.stopReader e) es r) := by
  obtain ⟨r, hrun, hpc⟩ : ∃ r, (cliSystem CliRun.stopReader).AnyRun [.patch CliRun.stopBody,
      .wait, .look 0, .beginSetup, .beginScenarios, .scenariosDone true, .finish 9,
      .flushed true false, .exit] r ∧ r.pc = .exited 103 :=
    StepSystem.exists_run_of_exec _ (s := .new false [] [] false false false)
      (by exact ⟨_, _, _, _, _, _, rfl⟩) (by decide +kernel)
  exact ⟨_, r, hpc, agrees_iff_no_late_stop hrun⟩

end K6Rs
