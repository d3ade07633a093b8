import K6Rs.Verification.Coroutine.Books

/-! The accounts of a VU along its runs. Operations cross the boundary of an iteration
in two ways only: the init code registers one, or the hard stop makes the driver loop
leave an iteration that has some outstanding. Without such a crossing every operation
is counted, resolved once, with its own metadata, in the iteration that registered it. -/

namespace K6Rs

variable {μ ρ : Type} {s s' : Coroutine μ ρ} {e : CoroutineEvent μ ρ}

/-- Operations of the init code or of the last iteration are left over. -/
def History.leftover (h : History μ) : Bool := h.initRegistered || h.hardStopped

namespace Coroutine

/-- The books of the current state. -/
def Booked (s : Coroutine μ ρ) : Prop :=
  Books s.shared s.pending s.history.iterations s.history.registrations s.history.resolutions

/-! ## What is left over -/

/-- The points of the init code and those between two iterations. -/
def between : CoroutinePc μ ρ → Bool
  | .fresh | .script .init | .awaitOne .init | .awaitAll .init _ => true
  | .starting | .publishing | .boundary => true
  | _ => false

/-- The points within an iteration. -/
def inside : CoroutinePc μ ρ → Bool
  | .returned | .unwound | .panicked => false
  | pc => !between pc

@[simp] theorem between_awaitOne (site : Site) :
    between (.awaitOne site : CoroutinePc μ ρ) = between (.script site : CoroutinePc μ ρ) := by
  cases site <;> rfl

@[simp] theorem between_awaitAll (site : Site) (batch : Batch μ ρ) :
    between (.awaitAll site batch) = between (.script site : CoroutinePc μ ρ) := by
  cases site <;> rfl

@[simp] theorem inside_awaitOne (site : Site) :
    inside (.awaitOne site : CoroutinePc μ ρ) = inside (.script site : CoroutinePc μ ρ) := by
  cases site <;> rfl

@[simp] theorem inside_awaitAll (site : Site) (batch : Batch μ ρ) :
    inside (.awaitAll site batch) = inside (.script site : CoroutinePc μ ρ) := by
  cases site <;> rfl

/-- Between iterations, what is outstanding is left over; within one nothing is. -/
structure Leftovers (s : Coroutine μ ρ) : Prop where
  between : between s.pc = true → (s.history.leftover = true ↔ s.shared.outstanding ≠ 0)
  inside : inside s.pc = true → s.history.leftover = false

theorem leftovers_new : (new : Coroutine μ ρ).Leftovers :=
  ⟨fun _ => by simp [new, History.new, History.leftover, VuShared.new], fun h => by cases h⟩

/-- A step that does not cross from within an iteration to between two or back. -/
private theorem Leftovers.mono (hs : s.Leftovers) {pc pc' : CoroutinePc μ ρ} (hpc : s.pc = pc)
    (hpc' : s'.pc = pc') (hleft : s'.history.leftover = s.history.leftover)
    (hout : Coroutine.between pc' = true → s'.shared.outstanding = s.shared.outstanding)
    (hbetween : Coroutine.between pc' = true → Coroutine.between pc = true)
    (hinside : Coroutine.inside pc' = true → Coroutine.inside pc = true) : s'.Leftovers := by
  subst hpc hpc'
  refine ⟨fun h => ?_, fun h => ?_⟩
  · rw [hleft, hout h]
    exact hs.between (hbetween h)
  · rw [hleft]
    exact hs.inside (hinside h)

theorem Leftovers.step (hs : s.Leftovers) (h : Steps s e s') : s'.Leftovers := by
  cases h with
  | fireHard | queue | settle | react => exact ⟨hs.between, hs.inside⟩
  | @register site md hpc =>
      refine ⟨fun hb => ?_, fun hi => ?_⟩
      · have hsite : site = .init := by
          change Coroutine.between s.pc = true at hb
          rw [hpc] at hb
          cases site <;> simp [Coroutine.between] at hb ⊢
        simp [Coroutine.register, History.leftover, VuShared.registerAsync, hsite]
      · have hleft := hs.inside hi
        change Coroutine.inside s.pc = true at hi
        rw [hpc] at hi
        have hsite : site ≠ .init := by
          rintro rfl
          cases hi
        rw [← hleft]
        simp [Coroutine.register, History.leftover, hsite]
  | start hpc => exact ⟨fun hb => (by cases hb), fun _ => rfl⟩
  | leave hpc hdone =>
      refine ⟨fun _ => ?_, fun hi => (by cases hi)⟩
      have hinit : s.history.initRegistered = false :=
        (Bool.or_eq_false_iff.mp (hs.inside (by rw [hpc]; rfl))).1
      have hhard : s.shared.outstanding ≠ 0 → s.hard = true := fun hne =>
        hdone.resolve_left fun h => hne h.2
      simpa [Coroutine.leave, History.leftover, hinit] using hhard
  | @awaitOne site hpc | @awaitAll site metas hpc | @opDone site hpc
  | @batchDone site batch batch' i res hpc | @batchResume site batch out hpc =>
      exact hs.mono hpc rfl rfl (fun _ => rfl) (by simp) (by simp)
  | initEnd hpc =>
      refine hs.mono hpc rfl rfl (fun _ => rfl) ?_ ?_
      · simp [Coroutine.between]
      · cases s.sig <;> simp [Coroutine.inside, Coroutine.between]
  | convertCut hpc =>
      obtain ⟨value, hpc⟩ | ⟨error, hpc⟩ := hpc
      · exact hs.mono hpc rfl rfl (fun _ => rfl) (by simp [Coroutine.between]) (fun _ => rfl)
      · exact hs.mono hpc rfl rfl (fun _ => rfl) (by simp [Coroutine.between]) (fun _ => rfl)
  | hardCancel => exact ⟨fun hb => (by cases hb), fun hi => (by cases hi)⟩
  | drain hpc | wake hop hpc =>
      exact hs.mono hpc rfl rfl (by simp [Coroutine.between]) (by simp [Coroutine.between])
        (fun _ => rfl)
  | batchPanic hpc | drainPanic hpc | decline hpc =>
      exact ⟨fun hb => (by cases hb), fun hi => (by cases hi)⟩
  | first hpc | grant hpc | publish hpc =>
      exact hs.mono hpc rfl rfl (fun _ => rfl) (fun _ => rfl) (fun h => (by cases h))
  | entryCut hpc | noExec hpc | call hpc | execReturn hpc | execThrow hpc | execPromise hpc
  | execCut hpc | succeed hpc | rethrow hpc | fail hpc | uncaught hpc | chain hpc | jobsEnd hpc
  | awaitPending hpc =>
      exact hs.mono hpc rfl rfl (fun _ => rfl) (by simp [Coroutine.between]) (fun _ => rfl)

end Coroutine

/-- An iteration starts after init code that registered an operation, or after an iteration that the
hard stop ended with operations outstanding. -/
def CoroutineEvent.CarriesOver (s : Coroutine μ ρ) : CoroutineEvent μ ρ → Prop
  | .start => s.history.initRegistered = true ∨ s.history.hardStopped = true
  | _ => False

theorem CoroutineEvent.carriesOver_start_iff :
    CoroutineEvent.start.CarriesOver s ↔ s.history.leftover = true := by
  rw [CarriesOver, History.leftover, Bool.or_eq_true]

namespace Coroutine

/-! ## The books along a run -/

theorem Booked.step (hs : s.Booked) (hleft : s.Leftovers) (he : ¬e.CarriesOver s)
    (h : Steps s e s') : s'.Booked := by
  cases h with
  | register hpc => exact Books.register hs _
  | awaitOne | awaitAll | awaitPending | publish => exact Books.yield hs
  | queue hop | wake hop => exact Books.queue hs _ hop
  | start hpc =>
      have hzero : s.shared.outstanding = 0 := by
        by_contra hne
        exact he (CoroutineEvent.carriesOver_start_iff.mpr
          ((hleft.between (by rw [hpc]; rfl)).mpr hne))
      exact Books.reset hs hzero
  | drain hpc hsome => exact Books.drain hs hsome
  | _ => exact hs

theorem booked_and_leftovers_new : (new : Coroutine μ ρ).Booked ∧ (new : Coroutine μ ρ).Leftovers :=
  ⟨Books.new, leftovers_new⟩

theorem booked_and_leftovers_step (hs : s.Booked ∧ s.Leftovers) (he : ¬e.CarriesOver s)
    (h : Steps s e s') : s'.Booked ∧ s'.Leftovers :=
  ⟨hs.1.step hs.2 he h, hs.2.step h⟩

theorem booked_and_leftovers_of_runs {es : List (CoroutineEvent μ ρ)}
    (h : (coroutineSystem μ ρ).Runs (fun s e => ¬e.CarriesOver s) es s) :
    s.Booked ∧ s.Leftovers :=
  h.invariant (fun _ hs => hs ▸ booked_and_leftovers_new) fun _ _ _ hs he hstep =>
    booked_and_leftovers_step hs he (steps_of_step hstep)

/-- Nothing is on the books of the coroutine or the scheduler. -/
structure Clean (s : Coroutine μ ρ) : Prop where
  outstanding : s.shared.outstanding = 0
  registered : s.shared.registered = []
  completed : s.shared.completed = []
  asyncMeta : s.shared.asyncMeta = ∅
  pending : s.pending = []

/-- Every result the driver loop takes finds its metadata, and belongs to the current
iteration. -/
def Resolves (s : Coroutine μ ρ) : Prop :=
  ∃ resolved metas,
    VuShared.resolveAll s.shared.completed s.shared.asyncMeta = some (resolved, metas) ∧
      resolved.map Prod.fst = s.shared.completed.map Prod.fst ∧
      ∀ r ∈ resolved, s.history.registrations[r.1]? = some (r.2, s.history.iterations)

theorem Booked.clean (hs : s.Booked) (hzero : s.shared.outstanding = 0) : s.Clean := by
  obtain ⟨hregistered, hpending, hcompleted, hmetas⟩ := Books.clean hs hzero
  exact ⟨hzero, hregistered, hcompleted, hmetas, hpending⟩

theorem Booked.resolves (hs : s.Booked) : s.Resolves := by
  obtain ⟨resolved, metas, hsome, hkeys, hown, _⟩ := Books.resolveAll hs
  exact ⟨resolved, metas, hsome, hkeys, hown⟩

end Coroutine

/-- The books do not cross the boundary of an iteration at this step. -/
def CoroutineEvent.KeepsBooks (s : Coroutine μ ρ) : CoroutineEvent μ ρ → Prop
  | .start => s.Clean
  | .drain => s.Resolves
  | _ => True

open Coroutine

private theorem not_carriesOver_of_keepsBooks (hleft : s.Leftovers) (hkeeps : e.KeepsBooks s)
    (h : Steps s e s') : ¬e.CarriesOver s := by
  intro hcarries
  cases h with
  | start hpc =>
      have hover := CoroutineEvent.carriesOver_start_iff.mp hcarries
      exact (hleft.between (by rw [hpc]; rfl)).mp hover hkeeps.outstanding
  | _ => exact hcarries

private theorem keepsBooks_of_not_carriesOver (hs : s.Booked ∧ s.Leftovers)
    (he : ¬e.CarriesOver s) (h : Steps s e s') : e.KeepsBooks s := by
  cases h with
  | start hpc =>
      apply hs.1.clean
      by_contra hne
      exact he (CoroutineEvent.carriesOver_start_iff.mpr
        ((hs.2.between (by rw [hpc]; rfl)).mpr hne))
  | drain | drainPanic => exact hs.1.resolves
  | _ => trivial

/-- The runs whose iterations start with empty books and resolve their own operations
only are those in which none starts with operations left over by the init code or by an
iteration that the hard stop ended. -/
theorem coroutine_keepsBooks_iff (es : List (CoroutineEvent μ ρ)) (s : Coroutine μ ρ) :
    (coroutineSystem μ ρ).Runs (fun s e => e.KeepsBooks s) es s ↔
      (coroutineSystem μ ρ).Runs (fun s e => ¬e.CarriesOver s) es s := by
  constructor
  · intro h
    apply h.imp (I := Leftovers) (fun _ hs => hs ▸ leftovers_new)
    · exact fun _ _ _ hleft _ hstep => hleft.step (steps_of_step hstep)
    · exact fun _ _ _ hleft hkeeps hstep =>
        not_carriesOver_of_keepsBooks hleft hkeeps (steps_of_step hstep)
  · intro h
    apply h.imp (fun _ hs => hs ▸ booked_and_leftovers_new)
    · exact fun _ _ _ hs he hstep => booked_and_leftovers_step hs he (steps_of_step hstep)
    · exact fun _ _ _ hs he hstep => keepsBooks_of_not_carriesOver hs he (steps_of_step hstep)

/-- The hard stop ends an iteration that has a request outstanding. -/
def lateStop : List (CoroutineEvent ℕ ℕ) :=
  [.next true, .initEnd, .start, .call, .register 7, .execReturn (.printable "ok"), .proceed false,
    .drain, .fireHard, .jobsEnd, .check, .publish, .next true]

/-- The next iteration takes the response of that request. -/
def staleResponse : List (CoroutineEvent ℕ ℕ) :=
  [.start, .call, .awaitOne, .complete 0 5, .opDone, .execReturn (.printable "ok"), .proceed false,
    .drain]

theorem not_keepsBooks_lateStop :
    (∃ s : Coroutine ℕ ℕ, (coroutineSystem ℕ ℕ).AnyRun lateStop s ∧ s.pc = .starting ∧
      s.shared.outstanding = 1 ∧ s.pending = [0] ∧ ¬CoroutineEvent.start.KeepsBooks s) ∧
    ∃ s : Coroutine ℕ ℕ, (coroutineSystem ℕ ℕ).AnyRun (lateStop ++ staleResponse) s ∧
      s.pc = .panicked := by
  constructor
  · obtain ⟨s, hrun, hpc, houtstanding, hpending⟩ :=
      (coroutineSystem ℕ ℕ).exists_run_of_exec lateStop
        (P := fun s => s.pc = .starting ∧ s.shared.outstanding = 1 ∧ s.pending = [0])
        rfl (by decide)
    refine ⟨s, hrun, hpc, houtstanding, hpending, fun h => ?_⟩
    have hzero := h.outstanding
    omega
  · exact (coroutineSystem ℕ ℕ).exists_run_of_exec (lateStop ++ staleResponse)
      (P := fun s => s.pc = .panicked) rfl (by decide)

end K6Rs
