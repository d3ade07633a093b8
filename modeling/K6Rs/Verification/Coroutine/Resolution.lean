import K6Rs.Verification.Coroutine.Accounting
import K6Rs.Verification.Coroutine.Batch

/-! A VU up to the hard stop. Every registered operation is outstanding until it is
resolved, once, with its own metadata, unless the init code registered it. -/

namespace K6Rs

variable {μ ρ : Type} {s s' : Coroutine μ ρ} {e : CoroutineEvent μ ρ}

namespace Coroutine

/-! ## What the init code leaves over -/

/-- The points of the init code. -/
def initial : CoroutinePc μ ρ → Bool
  | .fresh | .script .init | .awaitOne .init | .awaitAll .init _ => true
  | _ => false

@[simp] theorem initial_awaitOne (site : Site) :
    initial (.awaitOne site : CoroutinePc μ ρ) = initial (.script site : CoroutinePc μ ρ) := by
  cases site <;> rfl

@[simp] theorem initial_awaitAll (site : Site) (batch : Batch μ ρ) :
    initial (.awaitAll site batch) = initial (.script site : CoroutinePc μ ρ) := by
  cases site <;> rfl

/-- Without a hard stop, only the init code leaves operations over, and then none has
been resolved. -/
structure Unresolved (s : Coroutine μ ρ) : Prop where
  initial : initial s.pc = true → s.history.resolutions = []
  leftover : s.hard = false → s.history.leftover = true →
    s.history.resolutions = [] ∧ s.history.registrations ≠ []

theorem unresolved_new : (new : Coroutine μ ρ).Unresolved :=
  ⟨fun _ => rfl, fun _ h => by cases h⟩

/-- A step that neither registers nor resolves. -/
private theorem Unresolved.mono (hs : s.Unresolved) {pc pc' : CoroutinePc μ ρ} (hpc : s.pc = pc)
    (hpc' : s'.pc = pc') (hhard : s'.hard = s.hard)
    (hleft : s'.history.leftover = s.history.leftover)
    (hregistrations : s'.history.registrations = s.history.registrations)
    (hresolutions : s'.history.resolutions = s.history.resolutions)
    (hinitial : Coroutine.initial pc' = true → Coroutine.initial pc = true) : s'.Unresolved := by
  subst hpc hpc'
  refine ⟨fun h => ?_, fun hnot h => ?_⟩
  · rw [hresolutions]
    exact hs.initial (hinitial h)
  · rw [hresolutions, hregistrations]
    exact hs.leftover (hhard ▸ hnot) (hleft ▸ h)

private theorem Unresolved.register {site : Site} {md : μ} (hs : s.Unresolved)
    (hpc : s.pc = .script site) : (s.register site md).Unresolved := by
  refine ⟨hs.initial, fun hhard hleft => ⟨?_, by simp [Coroutine.register]⟩⟩
  change s.history.resolutions = []
  by_cases hsite : site = .init
  · apply hs.initial
    rw [hpc, hsite]
    rfl
  · simp only [Coroutine.register, History.leftover, hsite, decide_false, Bool.or_false] at hleft
    exact (hs.leftover hhard hleft).1

theorem Unresolved.step (hs : s.Unresolved) (hleft : s.Leftovers) (h : Steps s e s') :
    s'.Unresolved := by
  cases h with
  | fireHard => exact ⟨hs.initial, fun hhard => by cases hhard⟩
  | queue | settle | react => exact ⟨hs.initial, hs.leftover⟩
  | register hpc => exact hs.register hpc
  | start hpc => exact ⟨fun h => (by cases h), fun _ h => (by cases h)⟩
  | leave hpc hdone =>
      refine ⟨fun h => (by cases h), fun hhard hover => ?_⟩
      change s.hard = false at hhard
      rw [hhard] at hdone
      have hinside := hleft.inside (by rw [hpc]; rfl)
      simp only [Coroutine.leave, History.leftover, hhard, Bool.false_and, Bool.or_false] at hover
      rw [History.leftover, hover, Bool.true_or] at hinside
      cases hinside
  | drain hpc hsome =>
      refine ⟨fun h => (by cases h), fun _ hover => ?_⟩
      change s.history.leftover = true at hover
      rw [hleft.inside (by rw [hpc]; rfl)] at hover
      cases hover
  | @awaitOne site hpc | @awaitAll site metas hpc | @opDone site hpc
  | @batchDone site batch batch' i res hpc | @batchResume site batch out hpc =>
      exact hs.mono hpc rfl rfl rfl rfl rfl (by simp)
  | initEnd hpc => exact hs.mono hpc rfl rfl rfl rfl rfl (fun _ => rfl)
  | first hpc => exact hs.mono hpc rfl rfl rfl rfl rfl (fun _ => rfl)
  | _ => exact ⟨fun h => (by cases h), hs.leftover⟩

/-! ## What is accounted for -/

/-- The counter is the number of operations in the books, and every operation that was
ever registered is in one of them or resolved, once. -/
structure Accounted (s : Coroutine μ ρ) : Prop where
  outstanding : s.shared.outstanding =
    s.shared.registered.length + s.pending.length + s.shared.completed.length
  once : ∀ op < s.history.registrations.length,
    s.shared.registered.count op + s.pending.count op +
      (s.shared.completed.map Prod.fst).count op +
      (s.history.resolutions.map Prod.fst).count op = 1

theorem Booked.accounted (hs : s.Booked) : s.Accounted := by
  refine ⟨Books.outstanding hs, fun op hop => ?_⟩
  have honce := Books.once hs op
  rw [if_pos hop] at honce
  exact honce

end Coroutine

/-- What holds of a step: results find the metadata of their operations, the driver loop
leaves an iteration only with nothing outstanding, and a batch returns its results in
the order of its requests. -/
def CoroutineEvent.Settles (s : Coroutine μ ρ) : CoroutineEvent μ ρ → Prop
  | .drain => s.Resolves
  | .check => s.check.pc = .publishing → s.shared.outstanding = 0
  | .batchResume => ∀ site batch, s.pc = .awaitAll site batch → batch.Ordered
  | _ => True

open Coroutine

/-- An iteration that starts with operations left over by the init code loses one of
them or no longer counts it. -/
private theorem not_accounted_start (hs : s.Unresolved) (hhard : s.hard = false)
    (hover : s.history.leftover = true) : ¬s.start.Accounted := by
  intro h
  obtain ⟨hresolutions, hregistrations⟩ := hs.leftover hhard hover
  have hpending : s.pending = [] := by
    have hsum := h.outstanding
    simp only [Coroutine.start, VuShared.reset, List.length_nil] at hsum
    exact List.eq_nil_of_length_eq_zero (by omega)
  have honce := h.once 0 (List.length_pos_iff.mpr hregistrations)
  simp [Coroutine.start, VuShared.reset, hresolutions, hpending] at honce

/-- Only the start of an iteration can carry operations over. -/
private theorem not_carriesOver_of_accounted (hs : s.Unresolved) (hhard : s.hard = false)
    (hafter : s'.Accounted) (h : Steps s e s') : ¬e.CarriesOver s := by
  intro hcarries
  cases h with
  | start hpc =>
      exact not_accounted_start hs hhard (CoroutineEvent.carriesOver_start_iff.mp hcarries) hafter
  | _ => exact hcarries

private theorem settles_of_booked (hs : s.Booked) (hfilling : s.Filling) (hhard : s.hard = false)
    (h : Steps s e s') : e.Settles s := by
  cases h with
  | drain | drainPanic => exact hs.resolves
  | @batchResume site batch out hpc hzero | @batchPanic site batch hpc hzero =>
      intro site' batch' hpc'
      rw [hpc] at hpc'
      cases hpc'
      exact (hfilling _ _ hpc).ordered hzero
  | leave hpc hdone =>
      intro _
      rw [hhard] at hdone
      exact (hdone.resolve_right (by simp)).2
  | awaitPending hpc hdone hnot =>
      intro hleaves
      rw [Coroutine.check, if_neg (by simpa using hdone), if_neg (by simp [hnot])] at hleaves
      cases hleaves
  | _ => trivial

/-- Once the hard stop has fired it stays so. -/
private theorem hard_of_step (h : (coroutineSystem μ ρ).step s e = some s')
    (hhard : s'.hard = false) : s.hard = false := by
  cases steps_of_step h with
  | fireHard => cases hhard
  | _ => exact hhard

/-- Up to the hard stop, a run accounts for every operation in all its states and at all
its steps exactly when no iteration starts with operations left over, that is, with
operations of the init code. -/
theorem coroutine_accounted_iff {es : List (CoroutineEvent μ ρ)} (hhard : s.hard = false) :
    ((coroutineSystem μ ρ).Runs (fun s e => s.Accounted ∧ e.Settles s) es s ∧ s.Accounted) ↔
      (coroutineSystem μ ρ).Runs (fun s e => ¬e.CarriesOver s) es s := by
  constructor
  · rintro ⟨h, hend⟩
    apply ((h.before_after hend).persist (fun _ _ _ _ => hard_of_step) hhard).imp
      (I := fun s => s.Unresolved ∧ s.Leftovers)
    · exact fun _ hs => hs ▸ ⟨unresolved_new, leftovers_new⟩
    · exact fun _ _ _ hs _ hstep =>
        ⟨hs.1.step hs.2 (steps_of_step hstep), hs.2.step (steps_of_step hstep)⟩
    · intro s e s' hs hc hstep
      obtain ⟨⟨_, _, hafter⟩, hnot⟩ := hc
      exact not_carriesOver_of_accounted hs.1 hnot (hafter s' hstep) (steps_of_step hstep)
  · intro h
    refine ⟨?_, (booked_and_leftovers_of_runs h).1.accounted⟩
    apply (h.persist (fun _ _ _ _ => hard_of_step) hhard).imp
      (I := fun s => (s.Booked ∧ s.Leftovers) ∧ s.Filling)
    · exact fun _ hs => hs ▸ ⟨booked_and_leftovers_new, filling_new⟩
    · exact fun _ _ _ hs hc hstep =>
        ⟨booked_and_leftovers_step hs.1 hc.1 (steps_of_step hstep),
          hs.2.step (steps_of_step hstep)⟩
    · exact fun _ _ _ hs hc hstep =>
        ⟨hs.1.1.accounted, settles_of_booked hs.1.1 hs.2 hc.2 (steps_of_step hstep)⟩

/-- Two requests that complete in the opposite order, and a batch whose responses do. -/
private def swappedResponses : List (CoroutineEvent ℕ ℕ) :=
  [.next true, .initEnd, .start, .call, .register 7, .register 8, .awaitAll [3, 4], .complete 1 5,
    .batchDone 1 50, .complete 0 6, .batchDone 0 60, .batchResume, .execReturn (.printable "ok"),
    .proceed false, .drain, .jobsEnd, .check, .publish]

private def carriesNothing (s : Coroutine μ ρ) : CoroutineEvent μ ρ → Bool
  | .start => !(s.history.initRegistered || s.history.hardStopped)
  | _ => true

theorem coroutine_accounted_swappedResponses : ∃ s : Coroutine ℕ ℕ,
    ((coroutineSystem ℕ ℕ).Runs (fun s e => s.Accounted ∧ e.Settles s) swappedResponses s ∧
      s.Accounted) ∧ s.history.resolutions = [(1, 8, 1), (0, 7, 1)] := by
  obtain ⟨s, hrun, hhard, hresolutions⟩ :=
    (coroutineSystem ℕ ℕ).exists_runs_of_execWhen swappedResponses (B := carriesNothing)
      (P := fun s => s.hard = false ∧ s.history.resolutions = [(1, 8, 1), (0, 7, 1)])
      rfl (by decide)
  refine ⟨s, (coroutine_accounted_iff hhard).mpr (hrun.mono fun s e he => ?_), hresolutions⟩
  cases e with
  | start => simpa [carriesNothing, CoroutineEvent.CarriesOver] using he
  | _ => exact id

/-- The init code sends an asynchronous request and then a synchronous one. -/
def initRequest : List (CoroutineEvent ℕ ℕ) :=
  [.next true, .register 7, .awaitOne, .opDone, .initEnd, .start]

theorem not_accounted_initRequest :
    (∃ s : Coroutine ℕ ℕ, (coroutineSystem ℕ ℕ).AnyRun initRequest s ∧ s.hard = false ∧
      s.shared.outstanding = 0 ∧ s.pending = [0] ∧ ¬s.Accounted) ∧
    ∃ s : Coroutine ℕ ℕ, (coroutineSystem ℕ ℕ).AnyRun (initRequest ++
      [.call, .awaitOne, .complete 0 5, .opDone, .execReturn (.printable "ok"), .proceed false,
        .drain]) s ∧ s.hard = false ∧ s.pc = .panicked := by
  constructor
  · obtain ⟨s, hrun, hhard, houtstanding, hpending⟩ :=
      (coroutineSystem ℕ ℕ).exists_run_of_exec initRequest
        (P := fun s => s.hard = false ∧ s.shared.outstanding = 0 ∧ s.pending = [0])
        rfl (by decide)
    refine ⟨s, hrun, hhard, houtstanding, hpending, fun h => ?_⟩
    have hsum := h.outstanding
    rw [houtstanding, hpending, List.length_singleton] at hsum
    omega
  · exact (coroutineSystem ℕ ℕ).exists_run_of_exec (initRequest ++ _)
      (P := fun s => s.hard = false ∧ s.pc = .panicked) rfl (by decide)

end K6Rs
