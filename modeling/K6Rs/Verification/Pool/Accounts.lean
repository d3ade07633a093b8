import K6Rs.Library.StepSystem
import K6Rs.Model.Pool
import Mathlib.Algebra.BigOperators.Group.Finset.Piecewise

/-! The accounts of a pool. Every iteration a VU starts is tallied once, at its boundary
or by the hard stop, and every count in the shared counters belongs to one VU. -/

namespace K6Rs

/-! ## One VU -/

namespace Vu

variable {χ : Type}

/-- The steps of one VU as rules, each with what it adds to the shared counters. -/
inductive Steps (hard : Bool) (vu : Vu χ) : Event χ → Vu χ → Tally → Prop where
  | build : vu.pc = .unbuilt → Steps hard vu .build { vu with pc := .entering 0 } 0
  | buildFailed : vu.pc = .unbuilt → Steps hard vu .buildFailed { vu with pc := .gone } 0
  | first {loc} : vu.pc = .entering 0 →
      Steps hard vu (.tally loc) { vu with pc := .deciding 0 loc } 0
  | tally {k loc} : vu.pc = .entering (k + 1) →
      Steps hard vu (.tally loc)
        { vu with pc := .deciding (k + 1) loc, tallied := vu.tallied + 1 } (tallyOutcome vu.result)
  | move {k loc loc'} : vu.pc = .deciding k loc' →
      Steps hard vu (.move loc) { vu with pc := .deciding k loc } 0
  | grant {k loc} : vu.pc = .deciding k loc →
      Steps hard vu (.answer true) { vu with pc := .running k, started := vu.started + 1 } 0
  | decline {k loc} : vu.pc = .deciding k loc →
      Steps hard vu (.answer false) { vu with pc := .stopping k } 0
  | boundary {k outcome} : vu.pc = .running k →
      Steps hard vu (.boundary outcome)
        { vu with pc := .entering (k + 1), result := some outcome } 0
  | interrupt {k} : hard = true → vu.pc = .running k →
      Steps hard vu .hardCancel { vu with pc := .gone, tallied := vu.tallied + 1 } .interruption
  | stray : hard = true → vu.pc = .stopping 0 →
      Steps hard vu .hardCancel { vu with pc := .gone, strays := vu.strays + 1 } .interruption
  | finish {k} : vu.pc = .stopping k → Steps hard vu .finish { vu with pc := .gone } 0

theorem steps_of_step {hard : Bool} {vu vu' : Vu χ} {e : Event χ} {d : Tally}
    (h : vu.step hard e = some (vu', d)) : Steps hard vu e vu' d := by
  obtain ⟨pc, result, started, tallied, strays⟩ := vu
  cases e with
  | answer go =>
      cases pc with
      | deciding k loc => cases go <;> cases h <;> (constructor; rfl)
      | _ => cases h
  | tally loc =>
      cases pc with
      | entering k => cases k <;> cases h <;> (constructor; rfl)
      | _ => cases h
  | hardCancel =>
      cases hard with
      | false => cases h
      | true =>
          cases pc with
          | running k => cases h; exact .interrupt rfl rfl
          | stopping k =>
              cases k with
              | zero => cases h; exact .stray rfl rfl
              | succ k => cases h
          | _ => cases h
  | _ =>
      cases pc <;> cases h
      constructor
      rfl

theorem Steps.execution {hard : Bool} {vu vu' : Vu χ} {e : Event χ} {d : Tally}
    (h : Steps hard vu e vu' d) : vu.step hard e = some (vu', d) := by
  cases h with
  | interrupt hhard hpc | stray hhard hpc => simp [step, hhard, hpc]
  | build hpc | buildFailed hpc | first hpc | tally hpc | move hpc | grant hpc | decline hpc
  | boundary hpc | finish hpc => simp [step, hpc]

/-- The iterations that started and are not tallied yet. -/
def inFlight : DriverPc χ → ℕ
  | .running _ => 1
  | .entering (_ + 1) => 1
  | _ => 0

/-- Every started iteration is tallied or in flight, and what waits for its tally has
published an outcome. -/
structure Balanced (vu : Vu χ) : Prop where
  started : vu.started = vu.tallied + inFlight vu.pc
  published : ∀ k, vu.pc = .entering (k + 1) → vu.result.isSome = true

theorem balanced_new : (new : Vu χ).Balanced := ⟨rfl, fun _ h => by cases h⟩

theorem total_tallyOutcome {result : Option IterationOutcome} (h : result.isSome = true) :
    (tallyOutcome result).total = 1 := by
  cases result with
  | none => cases h
  | some outcome => cases outcome <;> rfl

theorem Steps.balanced {hard : Bool} {vu vu' : Vu χ} {e : Event χ} {d : Tally}
    (h : Steps hard vu e vu' d) (hb : vu.Balanced) : vu'.Balanced := by
  obtain ⟨hstarted, hpublished⟩ := hb
  cases h with
  | boundary hpc => exact ⟨by rw [hstarted, hpc]; rfl, fun _ _ => rfl⟩
  | build hpc | buildFailed hpc | first hpc | tally hpc | move hpc | grant hpc | decline hpc
  | finish hpc =>
      refine ⟨?_, fun _ h => by cases h⟩
      rw [hpc] at hstarted
      simp [hstarted, inFlight]
  | interrupt hhard hpc | stray hhard hpc =>
      refine ⟨?_, fun _ h => by cases h⟩
      rw [hpc] at hstarted
      simp [hstarted, inFlight]

/-- The number of iterations a VU has started, as its driver knows it. -/
def startsAt : DriverPc χ → Option ℕ
  | .unbuilt => some 0
  | .entering k => some k
  | .deciding k _ => some k
  | .running k => some (k + 1)
  | .stopping k => some k
  | .gone => none

/-- The driver counts the iterations the VU has started. -/
def Counted (vu : Vu χ) : Prop := ∀ k, startsAt vu.pc = some k → vu.started = k

theorem counted_new : (new : Vu χ).Counted := by
  intro k hk
  exact Option.some.inj hk

theorem Steps.counted {hard : Bool} {vu vu' : Vu χ} {e : Event χ} {d : Tally}
    (h : Steps hard vu e vu' d) (hc : vu.Counted) : vu'.Counted := by
  intro k hk
  cases h with
  | build hpc | first hpc | tally hpc | move hpc | decline hpc | boundary hpc =>
      have hstarted := hc _ (congrArg startsAt hpc)
      exact hstarted.trans (Option.some.inj hk)
  | grant hpc =>
      have hstarted := hc _ (congrArg startsAt hpc)
      rw [← Option.some.inj hk, ← hstarted]
  | buildFailed hpc | interrupt hhard hpc | stray hhard hpc | finish hpc => cases hk

/-- Only a granted iteration starts. -/
theorem Steps.started {hard : Bool} {vu vu' : Vu χ} {e : Event χ} {d : Tally}
    (h : Steps hard vu e vu' d) :
    (e = .answer true → vu'.started = vu.started + 1) ∧
      (e ≠ .answer true → vu'.started = vu.started) := by
  cases h with
  | grant hpc => exact ⟨fun _ => rfl, fun hne => (hne rfl).elim⟩
  | _ => exact ⟨fun he => (by cases he), fun _ => rfl⟩

/-- What a step adds to the shared counters it books for this VU. -/
theorem Steps.booked {hard : Bool} {vu vu' : Vu χ} {e : Event χ} {d : Tally}
    (h : Steps hard vu e vu' d) (hb : vu.Balanced) :
    vu'.tallied + vu'.strays = vu.tallied + vu.strays + d.total := by
  cases h with
  | tally hpc =>
      rw [total_tallyOutcome (hb.published _ hpc)]
      exact Nat.add_right_comm _ _ _
  | interrupt hhard hpc => exact Nat.add_right_comm _ _ _
  | _ => rfl

theorem Steps.strays_of_not {hard : Bool} {vu vu' : Vu χ} {e : Event χ} {d : Tally}
    (h : Steps hard vu e vu' d) (hstray : ¬(e = .hardCancel ∧ vu.pc = .stopping 0)) :
    vu'.strays = vu.strays := by
  cases h with
  | stray hhard hpc => exact (hstray ⟨rfl, hpc⟩).elim
  | _ => rfl

theorem Steps.strays_of {hard : Bool} {vu vu' : Vu χ} {d : Tally}
    (h : Steps hard vu .hardCancel vu' d) (hpc : vu.pc = .stopping 0) :
    vu'.strays = vu.strays + 1 := by
  cases h with
  | interrupt hhard hrunning => rw [hpc] at hrunning; cases hrunning
  | stray hhard hpc => rfl

end Vu

/-! ## The pool -/

namespace Pool

variable {n : ℕ} {χ : Type} {p p' : Pool n χ} {v : Fin n} {e : Vu.Event χ}

/-- A step of the pool is a step of one VU; the others and the token stay. -/
theorem step_eq_some (h : p.step v e = some p') :
    ∃ vu d, Vu.Steps p.hard (p.vus v) e vu d ∧
      p' = ⟨Function.update p.vus v vu, p.tally + d, p.hard⟩ := by
  obtain ⟨⟨vu, d⟩, hstep, rfl⟩ := Option.map_eq_some_iff.mp h
  exact ⟨vu, d, Vu.steps_of_step hstep, rfl⟩

/-- A property of every VU that the steps of a VU preserve. -/
theorem forall_vus_step {I : Vu χ → Prop} (h : p.step v e = some p') (hp : ∀ i, I (p.vus i))
    (hstep : ∀ vu d, Vu.Steps p.hard (p.vus v) e vu d → I vu) : ∀ i, I (p'.vus i) := by
  obtain ⟨vu, d, hsteps, rfl⟩ := step_eq_some h
  intro i
  cases Decidable.em (i = v) with
  | inl hi =>
      subst hi
      simpa using hstep vu d hsteps
  | inr hi => simpa [hi] using hp i

/-- Every VU is balanced, and the counters hold what is booked for the VUs. -/
structure Accounts (p : Pool n χ) : Prop where
  balanced : ∀ v, (p.vus v).Balanced
  booked : p.tally.total = ∑ v, ((p.vus v).tallied + (p.vus v).strays)

theorem accounts_new : (new : Pool n χ).Accounts := by
  refine ⟨fun _ => Vu.balanced_new, ?_⟩
  simp only [new, Vu.new, add_zero, Finset.sum_const_zero]
  rfl

theorem total_add (a b : Tally) : (a + b).total = a.total + b.total := by
  change _ + _ + (_ + _) + (_ + _) = _
  simp only [Tally.total]
  omega

theorem Accounts.step (hp : p.Accounts) (h : p.step v e = some p') : p'.Accounts := by
  refine ⟨forall_vus_step h hp.balanced fun vu d hsteps => hsteps.balanced (hp.balanced v), ?_⟩
  · obtain ⟨vu, d, hsteps, rfl⟩ := step_eq_some h
    have hsum := Finset.sum_update_add p.vus v vu fun vu => vu.tallied + vu.strays
    have hbooked := hsteps.booked (hp.balanced v)
    have htotal := hp.booked
    simp only at hsum ⊢
    rw [total_add]
    omega

/-- Once every driver has returned, the counters hold the started iterations and the
interruptions that belong to none. -/
theorem Accounts.total_of_joined (hp : p.Accounts) (h : p.Joined) :
    p.tally.total = p.started + p.strays := by
  rw [hp.booked, Finset.sum_add_distrib, started, strays]
  congr 1
  apply Finset.sum_congr rfl
  intro v _
  have hstarted := (hp.balanced v).started
  rw [h v] at hstarted
  exact hstarted.symm

theorem started_new : (new : Pool n χ).started = 0 := by
  simp [new, Vu.new, started]

theorem started_step_of_ne (h : p.step v e = some p') (he : e ≠ .answer true) :
    p'.started = p.started := by
  obtain ⟨vu, d, hsteps, rfl⟩ := step_eq_some h
  have hsum := Finset.sum_update_add p.vus v vu Vu.started
  have := hsteps.started.2 he
  simp only [started]
  omega

theorem started_step_grant (h : p.step v (.answer true) = some p') :
    p'.started = p.started + 1 := by
  obtain ⟨vu, d, hsteps, rfl⟩ := step_eq_some h
  have hsum := Finset.sum_update_add p.vus v vu Vu.started
  have := hsteps.started.1 rfl
  simp only [started]
  omega

theorem strays_new : (new : Pool n χ).strays = 0 := by
  simp [new, Vu.new, strays]

/-- The stray interruptions rise exactly at the stray steps. -/
theorem strays_step (h : p.step v e = some p') :
    (e = .hardCancel ∧ p.Stray v → p.strays < p'.strays) ∧
      (¬(e = .hardCancel ∧ p.Stray v) → p'.strays = p.strays) := by
  obtain ⟨vu, d, hsteps, rfl⟩ := step_eq_some h
  have hsum := Finset.sum_update_add p.vus v vu Vu.strays
  refine ⟨?_, ?_⟩
  · rintro ⟨rfl, hpc⟩
    have := hsteps.strays_of hpc
    simp only [strays]
    omega
  · intro hnot
    have := hsteps.strays_of_not hnot
    simp only [strays]
    omega

end Pool

end K6Rs
