import K6Rs.Verification.Pool.Curve
import K6Rs.Verification.Pool.Handoff
import Mathlib.Algebra.BigOperators.Group.Finset.Basic

/-! The accounts of an arrival-rate run. Every arrival is handed to an idle VU or
dropped, every arrival handed over starts one iteration, and the coordinator fires as
many arrivals as the curve asks for. -/

namespace K6Rs

namespace ArrivalState

variable {n : ℕ} {curve : ArrivalCurve} {s s' : ArrivalState n} {e : ArrivalEvent n}

/-! ## The arrivals -/

/-- The counts of the coordinator, and how far it is along the curve. -/
structure Paced (curve : ArrivalCurve) (s : ArrivalState n) : Prop where
  ledger : s.dispatched = s.handedTo.length + s.dropped
  within : (s.dispatched : ℚ) ≤ curve.expectedArrivals curve.totalDuration
  startup : s.coordinator = .startup → s.ready = false
  finished : s.coordinator = .gone → s.ready = true → s.cancelled = false →
    curve.expectedArrivals curve.totalDuration < s.dispatched + 1

theorem paced_new (h : 0 ≤ curve.expectedArrivals curve.totalDuration) :
    Paced curve (new : ArrivalState n) where
  ledger := rfl
  within := by simpa [new] using h
  startup _ := rfl
  finished h := by cases h

theorem fire_dispatched (s : ArrivalState n) : s.fire.dispatched = s.dispatched + 1 := by
  rw [fire]
  split
  · split <;> rfl
  · rfl

theorem fire_coordinator (s : ArrivalState n) : s.fire.coordinator = s.coordinator := by
  rw [fire]
  split
  · split <;> rfl
  · rfl

/-- One arrival is handed over or dropped. -/
theorem fire_ledger (s : ArrivalState n) :
    s.fire.handedTo.length + s.fire.dropped = s.handedTo.length + s.dropped + 1 := by
  rw [fire]
  split
  · split
    · exact (Nat.add_assoc _ _ _).symm
    · rw [List.length_append]
      exact Nat.add_right_comm _ _ _
  · exact (Nat.add_assoc _ _ _).symm

private theorem Paced.fire {elapsed : ℕ} (hs : Paced curve s)
    (hmono : ∀ t ≤ curve.totalDuration,
      curve.expectedArrivals t ≤ curve.expectedArrivals curve.totalDuration)
    (hpc : s.coordinator = .dispatching elapsed)
    (hdue : (s.dispatched : ℚ) + 1 ≤ target curve elapsed) : Paced curve s.fire where
  ledger := by
    have hledger := hs.ledger
    have hfire := fire_ledger s
    rw [fire_dispatched]
    omega
  within := by
    rw [fire_dispatched, Nat.cast_add, Nat.cast_one]
    exact hdue.trans (hmono _ (Nat.min_le_right _ _))
  startup h := by rw [fire_coordinator, hpc] at h; cases h
  finished h := by rw [fire_coordinator, hpc] at h; cases h

theorem Paced.step (hs : Paced curve s)
    (hmono : ∀ t ≤ curve.totalDuration,
      curve.expectedArrivals t ≤ curve.expectedArrivals curve.totalDuration)
    (h : Steps curve s e s') : Paced curve s' := by
  cases h with
  | cancel =>
      refine ⟨hs.ledger, hs.within, hs.startup, ?_⟩
      intro _ _ hcancelled
      cases hcancelled
  | nobody hpc hidle =>
      refine ⟨hs.ledger, hs.within, fun h => (by cases h), ?_⟩
      intro _ hready
      exact absurd hready (by simp [ArrivalState.exit, hs.startup hpc])
  | begin hpc hidle =>
      exact ⟨hs.ledger, hs.within, fun h => (by cases h), fun h => (by cases h)⟩
  | abandon hpc hcancelled =>
      refine ⟨hs.ledger, hs.within, fun h => (by cases h), ?_⟩
      intro _ _ h
      exact absurd h (by simp [ArrivalState.exit, hcancelled])
  | advance he hgone hpc hstart =>
      exact ⟨hs.ledger, hs.within, fun h => (hstart h).elim, fun h => (hpc h).elim⟩
  | fire hpc hdue => exact hs.fire hmono hpc hdue
  | @expired elapsed hpc hdue htotal =>
      refine ⟨hs.ledger, hs.within, fun h => (by cases h), ?_⟩
      intro _ _ _
      rw [target, Nat.min_eq_right htotal] at hdue
      exact not_le.mp hdue
  | _ => exact ⟨hs.ledger, hs.within, hs.startup, hs.finished⟩

/-! ## Interruptions without an iteration -/

theorem Steps.strays_lt (h : Steps curve s e s') (hstray : e.Stray s) :
    s.pool.strays < s'.pool.strays := by
  cases h with
  | quiet hp hgrant hparked hiff => exact (Pool.strays_step hp).1 (hiff.mp hstray)
  | take he =>
      obtain rfl | rfl := he
      · exact hstray.elim
      · exact hstray.elim
  | advance he =>
      obtain rfl | ⟨t, rfl⟩ | rfl := he
      · exact hstray.elim
      · exact hstray.elim
      · exact hstray.elim
  | _ => exact hstray.elim

theorem fire_ready (s : ArrivalState n) : s.fire.ready = s.ready := by
  rw [fire]
  split
  · split <;> rfl
  · rfl

theorem fire_pool (s : ArrivalState n) : s.fire.pool = s.pool := by
  rw [fire]
  split
  · split <;> rfl
  · rfl

theorem Steps.strays_eq (h : Steps curve s e s') (hstray : ¬e.Stray s) :
    s'.pool.strays = s.pool.strays := by
  cases h with
  | quiet hp hgrant hparked hiff => exact (Pool.strays_step hp).2 (mt hiff.mpr hstray)
  | report hpc hgone hp => exact (Pool.strays_step hp).2 (by simp)
  | deliver hparked hr hp => exact (Pool.strays_step hp).2 (by simp)
  | closed hr hgone hp => exact (Pool.strays_step hp).2 (by simp)
  | fire hpc hdue => rw [fire_pool]
  | _ => rfl

/-- A run counts no interruption without an iteration exactly when it has no stray
step. -/
theorem strays_eq_zero_iff {es : List (ArrivalEvent n)} (h : (arrivalSystem n curve).AnyRun es s) :
    s.pool.strays = 0 ↔ (arrivalSystem n curve).Runs (fun s e => ¬e.Stray s) es s :=
  StepSystem.Runs.counter_eq_zero_iff (μ := fun s => s.pool.strays)
    (fun _ hs => hs ▸ Pool.strays_new)
    (fun _ _ _ hstray hs => (steps_of_arrivalSystem hs).strays_lt hstray)
    (fun _ _ _ hstray hs => (steps_of_arrivalSystem hs).strays_eq hstray) h

/-! ## Reports during the startup -/

/-- The coordinator starts its clock with a VU that is ready. -/
def Begun (s : ArrivalState n) : Prop :=
  s.coordinator ≠ .startup → s.coordinator ≠ .gone → s.ready = true

theorem Begun.step (hs : s.Begun) (h : Steps curve s e s') : s'.Begun := by
  intro hstartup hgone
  cases h with
  | nobody | abandon | expired => exact (hgone rfl).elim
  | begin => rfl
  | advance he hbefore hafter hstart hloop => exact hs hloop hbefore
  | fire hpc hdue =>
      rw [fire_ready]
      exact hs (by rw [hpc]; nofun) (by rw [hpc]; nofun)
  | _ => exact hs hstartup hgone

/-- The run is not cancelled, and no VU is ready or has reported. -/
structure Silent (s : ArrivalState n) : Prop where
  cancelled : s.cancelled = false
  ready : s.ready = false
  idle : s.idle = []
  idleChannel : s.idleChannel = []

private theorem Silent.before (hs : s'.Silent) (hbegun : s.Begun) (h : Steps curve s e s') :
    s.Silent := by
  cases h with
  | cancel => cases hs.cancelled
  | begin => cases hs.ready
  | report => exact (List.append_ne_nil_of_right_ne_nil _ (by simp) hs.idleChannel).elim
  | take => exact (List.append_ne_nil_of_right_ne_nil _ (by simp) hs.idle).elim
  | nobody hpc hidle hempty =>
      refine ⟨hs.cancelled, hs.ready, hidle, hempty.resolve_left ?_⟩
      exact fun h => Bool.false_ne_true (hs.cancelled.symm.trans h)
  | abandon hpc hcancelled => exact absurd (hs.cancelled.symm.trans hcancelled) Bool.false_ne_true
  | expired hpc =>
      have hready := hbegun (by rw [hpc]; nofun) (by rw [hpc]; nofun)
      exact absurd (hs.ready.symm.trans hready) Bool.false_ne_true
  | fire hpc =>
      have hready := hbegun (by rw [hpc]; nofun) (by rw [hpc]; nofun)
      exact absurd (hs.ready.symm.trans ((fire_ready s).trans hready)) Bool.false_ne_true
  | _ => exact ⟨hs.cancelled, hs.ready, hs.idle, hs.idleChannel⟩

/-- A report during the startup is on the channel. -/
private theorem idleChannel_of_report {v : Fin n}
    (h : (arrivalSystem n curve).step s (.report v) = some s') (hpc : s.coordinator = .startup) :
    s'.idleChannel ≠ [] := by
  change s.report v = some s' at h
  rw [report] at h
  split at h
  · rw [if_neg (by rw [hpc]; rintro ⟨⟩)] at h
    obtain ⟨p, -, rfl⟩ := Option.map_eq_some_iff.mp h
    exact List.append_ne_nil_of_right_ne_nil _ (by simp)
  · cases h

/-- Unless it is cancelled, a finished run in which a VU reports during the startup had a
VU idle when the clock started. -/
theorem no_report_of_not_ready {es : List (ArrivalEvent n)}
    (h : (arrivalSystem n curve).AnyRun es s)
    (hgone : s.coordinator = .gone) (hcancelled : s.cancelled = false) (hready : ¬s.Ready) :
    (arrivalSystem n curve).Runs
      (fun s e => ∀ v, e = .report v → s.coordinator ≠ .startup) es s := by
  have hbegun : (arrivalSystem n curve).Runs (fun s _ => s.Begun) es s :=
    h.imp (I := Begun) (fun _ hs hstartup => by subst hs; exact (hstartup rfl).elim)
      (fun _ _ _ hs _ hstep => hs.step (steps_of_arrivalSystem hstep)) fun _ _ _ hs _ _ => hs
  obtain ⟨hidle, hchannel⟩ := (placed_of_anyRun h).gone hgone
  have hsilent : s.Silent := ⟨hcancelled, by simpa [Ready] using hready, hidle, hchannel⟩
  have hall := hbegun.persist
    (fun _ _ _ hs hstep hafter => Silent.before hafter hs (steps_of_arrivalSystem hstep)) hsilent
  have hafter := (hall.mono fun _ _ hc => ⟨hc.2, hc.1⟩).before_after hsilent
  apply hafter.imp (I := fun _ => True) (fun _ _ => trivial) (fun _ _ _ _ _ _ => trivial)
  rintro s e s' - hc hstep v rfl hpc
  exact idleChannel_of_report hstep hpc (hc.2.2 s' hstep).idleChannel

/-! ## Conservation -/

/-- The accounts of a finished run: the counts add up, every arrival was handed to one
VU, which started one iteration for it, or was dropped, and without a cancellation
there are as many as the curve expects. -/
structure Conserves (curve : ArrivalCurve) (s : ArrivalState n) : Prop where
  counted : s.dispatched =
    s.pool.tally.completed + s.pool.tally.errored + s.pool.tally.interrupted + s.dropped
  handed : s.dispatched = s.handedTo.length + s.dropped
  started : ∀ v, (s.pool.vus v).started = s.handedTo.count v
  expected : s.cancelled = false →
    s.dispatched = ⌊curve.expectedArrivals curve.totalDuration⌋₊

/-- A dispatch that waits in a channel is delivered before its VU returns. -/
theorem Placed.runNext_of_joined (hs : s.Placed) (hjoined : s.pool.Joined) (v : Fin n) :
    s.runNext v = 0 := by
  by_contra hr
  obtain ⟨k, hk⟩ := hs.parked v (by rw [places]; omega)
  rw [hjoined v] at hk
  cases hk

/-- The started iterations of all VUs are the arrivals that were handed over. -/
theorem started_eq_length (h : ∀ v, (s.pool.vus v).started = s.handedTo.count v) :
    s.pool.started = s.handedTo.length := by
  have hlength :=
    Multiset.sum_count_eq_card (s := Finset.univ) (m := (s.handedTo : Multiset (Fin n)))
    fun v _ => Finset.mem_univ v
  simpa [Pool.started, h] using hlength

end ArrivalState

open ArrivalState

/-- A finished run that was cancelled, or had a VU idle when the clock started, conserves
its arrivals exactly when the hard stop cuts off no VU that was declined before its first
iteration. -/
theorem arrival_conserves_iff {n : ℕ} {startRate : ℚ} {stages : List Stage} {timeUnit : ℕ}
    (hrate : 0 ≤ startRate) {s : ArrivalState n} {es : List (ArrivalEvent n)}
    (hrun : (arrivalSystem n (.new startRate stages timeUnit)).AnyRun es s)
    (hready : s.cancelled = false → s.Ready) (hcomplete : s.Complete) :
    Conserves (.new startRate stages timeUnit) s ↔
      (arrivalSystem n (.new startRate stages timeUnit)).Runs (fun s e => ¬e.Stray s) es s := by
  obtain ⟨hgone, hjoined⟩ := hcomplete
  have hplaced := placed_of_anyRun hrun
  have hdelivered := delivered_of_anyRun hrun
  have hnonneg := ArrivalCurve.expectedArrivals_nonneg hrate stages timeUnit
  have hpaced : Paced (.new startRate stages timeUnit) s :=
    hrun.invariant (fun _ hs => hs ▸ paced_new (hnonneg _)) fun _ _ _ hpaced _ hs =>
      hpaced.step (fun t ht => ArrivalCurve.expectedArrivals_mono hrate stages timeUnit ht)
        (steps_of_step hs)
  have hstarted : ∀ v, (s.pool.vus v).started = s.handedTo.count v := by
    intro v
    have := hdelivered v
    have := hplaced.runNext_of_joined hjoined v
    omega
  have hledger := hpaced.ledger
  have hlength := started_eq_length hstarted
  have htotal := (accounts_of_anyRun hrun).total_of_joined hjoined
  rw [Tally.total] at htotal
  rw [← strays_eq_zero_iff hrun]
  constructor
  · intro hc
    have hcounted := hc.counted
    omega
  · intro hzero
    refine ⟨by omega, hledger, hstarted, ?_⟩
    intro hcancelled
    have hlt := hpaced.finished hgone (hready hcancelled) hcancelled
    exact ((Nat.floor_eq_iff (hnonneg _)).mpr ⟨hpaced.within, hlt⟩).symm

/-- Three arrivals for two VUs, which run two of them; the third finds no VU idle. -/
private def threeArrivals : List (ArrivalEvent 2) :=
  [.build 0, .build 1, .tally 1, .report 1, .tally 0, .report 0, .collect, .collect, .startupEnd,
    .loopTop, .drained (10 ^ 9), .dispatch, .dispatch, .dispatch, .dispatchEnd, .receive 1,
    .receive 0, .boundary 0 .completed, .boundary 1 .errored, .tally 1, .report 1, .finish 1,
    .tally 0, .report 0, .finish 0]

theorem arrival_conserves_threeArrivals :
    ∃ s : ArrivalState 2, Conserves (.new 3 [⟨10 ^ 9, 3⟩] (10 ^ 9)) s ∧ s.dispatched = 3 ∧
      s.pool.tally = ⟨1, 1, 0⟩ := by
  obtain ⟨s, hrun, hready, hcomplete, hdispatched, htally⟩ :=
    (arrivalSystem 2 (.new 3 [⟨10 ^ 9, 3⟩] (10 ^ 9))).exists_run_of_exec threeArrivals
      (P := fun s => s.ready = true ∧ (s.coordinator = .gone ∧ s.pool.Joined) ∧
        s.dispatched = 3 ∧ s.pool.tally = ⟨1, 1, 0⟩) rfl (by decide +kernel)
  have hcalm : ∀ e ∈ threeArrivals, ∀ v, e ≠ .hardCancel v := by simp [threeArrivals]
  refine ⟨s, (arrival_conserves_iff (by decide) hrun (fun _ => hready) hcomplete).mpr ?_,
    hdispatched, htally⟩
  apply (hrun.restrict hcalm).mono
  intro s e he hstray
  cases e with
  | hardCancel v => exact he v rfl
  | _ => exact hstray

/-- One arrival for two VUs. The VU that gets none is declined, evaluates its script all
the same, and is cut off while the script's top level sleeps. -/
def strayArrival : List (ArrivalEvent 2) :=
  [.build 0, .tally 0, .report 0, .build 1, .tally 1, .report 1, .collect, .collect, .startupEnd,
    .loopTop, .drained (10 ^ 9), .dispatch, .dispatchEnd, .receive 0, .boundary 0 .completed,
    .tally 0, .report 0, .finish 0, .receive 1, .fireHard, .hardCancel 1]

theorem not_conserves_strayArrival :
    ∃ s : ArrivalState 2, (arrivalSystem 2 (.new 1 [⟨10 ^ 9, 1⟩] (10 ^ 9))).AnyRun strayArrival s ∧
      s.Ready ∧ s.Complete ∧ s.dispatched = 1 ∧ s.dropped = 0 ∧ s.pool.tally = ⟨1, 0, 1⟩ ∧
      ¬Conserves (.new 1 [⟨10 ^ 9, 1⟩] (10 ^ 9)) s := by
  obtain ⟨s, hrun, hready, hcomplete, hdispatched, hdropped, htally⟩ :=
    (arrivalSystem 2 (.new 1 [⟨10 ^ 9, 1⟩] (10 ^ 9))).exists_run_of_exec strayArrival
      (P := fun s => s.ready = true ∧ (s.coordinator = .gone ∧ s.pool.Joined) ∧
        s.dispatched = 1 ∧ s.dropped = 0 ∧ s.pool.tally = ⟨1, 0, 1⟩) rfl (by decide +kernel)
  refine ⟨s, hrun, hready, hcomplete, hdispatched, hdropped, htally, ?_⟩
  intro h
  have hcounted := h.counted
  rw [hdispatched, hdropped, htally] at hcounted
  cases hcounted

end K6Rs
