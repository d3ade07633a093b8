import K6Rs.Model.Iterations
import K6Rs.Verification.Pool.Accounts
import Mathlib.Algebra.Order.BigOperators.Group.Finset

/-! The executors with a planned number of iterations. The claims of the shared budget
are exactly the iterations that start, and every started iteration is tallied once; a
surplus can only come from VUs that the hard stop cuts off before any iteration. -/

namespace K6Rs

namespace IterationsState

variable {n : ℕ} {ex : IterationsExecutor} {s s' : IterationsState n} {e : IterationsEvent n}

/-! ## What a step does -/

/-- A step of a VU that neither starts an iteration nor is about to exchange zero. -/
structure Quiet (pe : Vu.Event ClaimLoc) : Prop where
  not_grant : pe ≠ .answer true
  not_move : pe ≠ .move (.swapping 0)
  not_tally : pe ≠ .tally (.swapping 0)

/-- The steps by what they do to the budget. -/
inductive Steps (ex : IterationsExecutor) (s : IterationsState n) :
    IterationsEvent n → IterationsState n → Prop where
  | stop : Steps ex s .stop { s with stopped := true }
  | fireHard : Steps ex s .fireHard { s with pool := s.pool.fireHard }
  | hardCancel {v p} : s.pool.step v .hardCancel = some p →
      Steps ex s (.hardCancel v) { s with pool := p }
  /-- The VU goes on without an iteration and without being cut off. -/
  | quiet {e v pe p} : s.pool.step v pe = some p → Quiet pe → pe ≠ .hardCancel →
      (∀ v, e ≠ .hardCancel v) → Steps ex s e { s with pool := p }
  /-- A successful exchange takes one iteration from the budget. -/
  | claim {v k cur total p} : ex = .shared total →
      (s.pool.vus v).pc = .deciding k (.swapping cur) → s.remaining = cur →
      s.pool.step v (.answer true) = some p →
      Steps ex s (.swap v false) { s with remaining := cur - 1, pool := p }
  /-- A VU below its cap takes its next iteration. -/
  | own {v k cap p} : ex = .perVu cap → (s.pool.vus v).pc = .deciding k .checking → k < cap →
      s.pool.step v (.answer true) = some p → Steps ex s (.check v) { s with pool := p }

private theorem withPool_eq_some {p : Option (Pool n ClaimLoc)} (h : s.withPool p = some s') :
    ∃ p', p = some p' ∧ s' = { s with pool := p' } := by
  obtain ⟨p', hp, rfl⟩ := Option.map_eq_some_iff.mp h
  exact ⟨p', hp, rfl⟩

private theorem steps_check {v : Fin n} (h : s.check ex v = some s') :
    Steps ex s (.check v) s' := by
  rw [check] at h
  split at h
  · rename_i k hpc
    cases ex with
    | shared totalIterations =>
        simp only at h
        split at h
        · obtain ⟨p, hp, rfl⟩ := withPool_eq_some h
          exact .quiet hp ⟨by simp, by simp, by simp⟩ (by simp) (by simp)
        · obtain ⟨p, hp, rfl⟩ := withPool_eq_some h
          exact .quiet hp ⟨by simp, by simp, by simp⟩ (by simp) (by simp)
    | perVu cap =>
        obtain ⟨p, hp, rfl⟩ := withPool_eq_some h
        cases hgo : decide (k < cap) && !s.stopped with
        | false =>
            rw [hgo] at hp
            exact .quiet hp ⟨by simp, by simp, by simp⟩ (by simp) (by simp)
        | true =>
            rw [hgo] at hp
            exact .own rfl hpc (of_decide_eq_true (Bool.and_eq_true_iff.mp hgo).1) hp
  · cases h

private theorem steps_load {v : Fin n} {cur : ℕ} (h : s.load v cur = some s') :
    Steps ex s (.load v cur) s' := by
  rw [load] at h
  split at h
  · split at h
    · split at h
      · obtain ⟨p, hp, rfl⟩ := withPool_eq_some h
        exact .quiet hp ⟨by simp, by simp, by simp⟩ (by simp) (by simp)
      · rename_i hcur
        obtain ⟨p, hp, rfl⟩ := withPool_eq_some h
        exact .quiet hp ⟨by simp, by simpa using hcur, by simp⟩ (by simp) (by simp)
    · cases h
  · cases h

private theorem steps_swap {v : Fin n} {spurious : Bool} {total : ℕ} (hex : ex = .shared total)
    (h : s.swap v spurious = some s') : Steps ex s (.swap v spurious) s' := by
  rw [swap] at h
  split at h
  · rename_i k cur hpc
    split at h
    · rename_i hok
      obtain ⟨p, hp, rfl⟩ := withPool_eq_some h
      obtain ⟨hcur, rfl⟩ := hok
      exact .claim hex hpc hcur hp
    · obtain ⟨p, hp, rfl⟩ := withPool_eq_some h
      exact .quiet hp ⟨by simp, by simp, by simp⟩ (by simp) (by simp)
  · cases h

theorem steps_of_step (h : s.step ex e = some s') : Steps ex s e s' := by
  cases e with
  | stop => cases h; exact .stop
  | fireHard => cases h; exact .fireHard
  | check v => exact steps_check h
  | load v cur =>
      cases ex with
      | shared total => exact steps_load h
      | perVu cap => cases h
  | swap v spurious =>
      cases ex with
      | shared total => exact steps_swap rfl h
      | perVu cap => cases h
  | hardCancel v =>
      obtain ⟨p, hp, rfl⟩ := withPool_eq_some h
      exact .hardCancel hp
  | build v | tally v | boundary v outcome | finish v =>
      obtain ⟨p, hp, rfl⟩ := withPool_eq_some h
      exact .quiet hp ⟨by simp, by simp, by simp⟩ (by simp) (by simp)

/-! ## The invariant of every run -/

/-- What every reachable state satisfies: the accounts of the pool, the shared budget,
and the caps of the VUs. -/
structure Inv (ex : IterationsExecutor) (s : IterationsState n) : Prop where
  accounts : s.pool.Accounts
  counted : ∀ v, (s.pool.vus v).Counted
  budget : ∀ total, ex = .shared total → s.pool.started + s.remaining = total
  swapping : ∀ v k, (s.pool.vus v).pc ≠ .deciding k (.swapping 0)
  capped : ∀ cap, ex = .perVu cap → ∀ v, (s.pool.vus v).started ≤ cap

theorem inv_new (ex : IterationsExecutor) : Inv ex (new ex : IterationsState n) where
  accounts := Pool.accounts_new
  counted _ := Vu.counted_new
  budget := by
    rintro total rfl
    rw [new, Pool.started_new, zero_add]
  swapping _ _ h := by cases h
  capped _ _ _ := Nat.zero_le _

/-- No VU step but the move itself leads to an exchange of zero. -/
private theorem not_swapping_zero {hard : Bool} {vu vu' : Vu ClaimLoc} {pe : Vu.Event ClaimLoc}
    {d : Tally} (h : Vu.Steps hard vu pe vu' d) (hmove : pe ≠ .move (.swapping 0))
    (htally : pe ≠ .tally (.swapping 0)) : ∀ k, vu'.pc ≠ .deciding k (.swapping 0) := by
  intro k hk
  cases h <;> simp_all

/-- A quiet step of a VU keeps the invariant. -/
private theorem Inv.quiet {v : Fin n} {pe : Vu.Event ClaimLoc} {p : Pool n ClaimLoc}
    (hinv : Inv ex s) (hp : s.pool.step v pe = some p) (hquiet : Quiet pe) :
    Inv ex { s with pool := p } where
  accounts := hinv.accounts.step hp
  counted := Pool.forall_vus_step hp hinv.counted fun _ _ hsteps => hsteps.counted (hinv.counted v)
  budget total hex := by
    rw [Pool.started_step_of_ne hp hquiet.not_grant]
    exact hinv.budget total hex
  swapping := Pool.forall_vus_step hp hinv.swapping fun _ _ hsteps =>
    not_swapping_zero hsteps hquiet.not_move hquiet.not_tally
  capped cap hex := Pool.forall_vus_step (I := fun vu => vu.started ≤ cap) hp
      (hinv.capped cap hex) fun vu _ hsteps => by
    rw [hsteps.started.2 hquiet.not_grant]
    exact hinv.capped cap hex v

private theorem Inv.claim {v : Fin n} {k cur total : ℕ} {p : Pool n ClaimLoc} (hinv : Inv ex s)
    (hex : ex = .shared total) (hpc : (s.pool.vus v).pc = .deciding k (.swapping cur))
    (hcur : s.remaining = cur) (hp : s.pool.step v (.answer true) = some p) :
    Inv ex { s with remaining := cur - 1, pool := p } where
  accounts := hinv.accounts.step hp
  counted := Pool.forall_vus_step hp hinv.counted fun _ _ hsteps => hsteps.counted (hinv.counted v)
  budget total' hex' := by
    have hpos : cur ≠ 0 := by
      intro hzero
      exact hinv.swapping v k (hzero ▸ hpc)
    have hbudget := hinv.budget total' hex'
    rw [Pool.started_step_grant hp]
    simp only
    omega
  swapping := Pool.forall_vus_step hp hinv.swapping fun _ _ hsteps =>
    not_swapping_zero hsteps (by simp) (by simp)
  capped cap hcap := by rw [hex] at hcap; cases hcap

private theorem Inv.own {v : Fin n} {k cap : ℕ} {p : Pool n ClaimLoc} (hinv : Inv ex s)
    (hex : ex = .perVu cap) (hpc : (s.pool.vus v).pc = .deciding k .checking) (hlt : k < cap)
    (hp : s.pool.step v (.answer true) = some p) : Inv ex { s with pool := p } where
  accounts := hinv.accounts.step hp
  counted := Pool.forall_vus_step hp hinv.counted fun _ _ hsteps => hsteps.counted (hinv.counted v)
  budget total hex' := by rw [hex] at hex'; cases hex'
  swapping := Pool.forall_vus_step hp hinv.swapping fun _ _ hsteps =>
    not_swapping_zero hsteps (by simp) (by simp)
  capped cap' hex' := Pool.forall_vus_step (I := fun vu => vu.started ≤ cap') hp
      (hinv.capped cap' hex') fun vu _ hsteps => by
    -- The driver passes the number of iterations the VU has started.
    have hstarted : (s.pool.vus v).started = k := hinv.counted v k (congrArg Vu.startsAt hpc)
    have hcap : cap' = cap := IterationsExecutor.perVu.inj (hex'.symm.trans hex)
    rw [hsteps.started.1 rfl, hstarted, hcap]
    exact hlt

theorem Inv.step (hinv : Inv ex s) (h : Steps ex s e s') : Inv ex s' := by
  cases h with
  | stop => exact ⟨hinv.accounts, hinv.counted, hinv.budget, hinv.swapping, hinv.capped⟩
  | fireHard =>
      exact ⟨⟨hinv.accounts.balanced, hinv.accounts.booked⟩, hinv.counted, hinv.budget,
        hinv.swapping, hinv.capped⟩
  | hardCancel hp => exact hinv.quiet hp ⟨by simp, by simp, by simp⟩
  | quiet hp hquiet hne hcancel => exact hinv.quiet hp hquiet
  | claim hex hpc hcur hp => exact hinv.claim hex hpc hcur hp
  | own hex hpc hlt hp => exact hinv.own hex hpc hlt hp

theorem inv_of_anyRun {es : List (IterationsEvent n)} (h : (iterationsSystem n ex).AnyRun es s) :
    Inv ex s :=
  h.invariant (fun _ hs => hs ▸ inv_new ex) fun _ _ _ hinv _ hs => hinv.step (steps_of_step hs)

/-- No run starts more iterations than planned. -/
theorem Inv.started_le_planned (hinv : Inv ex s) : s.pool.started ≤ planned n ex := by
  cases ex with
  | shared total =>
      have hbudget := hinv.budget total rfl
      simp only [planned]
      omega
  | perVu cap =>
      have hsum := Finset.sum_le_card_nsmul Finset.univ (fun v => (s.pool.vus v).started) cap
        fun v _ => hinv.capped cap rfl v
      simpa [planned, Pool.started, Nat.mul_comm] using hsum

/-! ## Interruptions without an iteration -/

theorem Steps.strays_lt (h : Steps ex s e s') (hstray : e.Stray s) :
    s.pool.strays < s'.pool.strays := by
  cases h with
  | hardCancel hp => exact (Pool.strays_step hp).1 ⟨rfl, hstray⟩
  | @quiet e v pe p hp hquiet hne hcancel =>
      cases e with
      | hardCancel v => exact (hcancel v rfl).elim
      | _ => exact hstray.elim
  | _ => exact hstray.elim

theorem Steps.strays_eq (h : Steps ex s e s') (hstray : ¬e.Stray s) :
    s'.pool.strays = s.pool.strays := by
  cases h with
  | stop | fireHard => rfl
  | hardCancel hp => exact (Pool.strays_step hp).2 fun h => hstray h.2
  | quiet hp hquiet hne hcancel => exact (Pool.strays_step hp).2 fun h => hne h.1
  | claim hex hpc hcur hp | own hex hpc hlt hp =>
      exact (Pool.strays_step hp).2 (by simp)

/-- A run counts no interruption without an iteration exactly when it has no stray
step. -/
theorem strays_eq_zero_iff {es : List (IterationsEvent n)}
    (h : (iterationsSystem n ex).AnyRun es s) :
    s.pool.strays = 0 ↔ (iterationsSystem n ex).Runs (fun s e => ¬e.Stray s) es s :=
  StepSystem.Runs.counter_eq_zero_iff (μ := fun s => s.pool.strays)
    (fun _ hs => hs ▸ Pool.strays_new)
    (fun _ _ _ hstray hs => (steps_of_step hs).strays_lt hstray)
    (fun _ _ _ hstray hs => (steps_of_step hs).strays_eq hstray) h

/-! ## Conservation -/

/-- The accounts of a finished run: the claims are the started iterations, at most as
many as planned, each tallied once, and the summary adds up to the plan. -/
structure Conserves (ex : IterationsExecutor) (s : IterationsState n) : Prop where
  claimed : ∀ total, ex = .shared total → s.pool.started + s.remaining = total
  started : s.pool.started ≤ planned n ex
  tallied : ∀ v, (s.pool.vus v).tallied = (s.pool.vus v).started
  counted : s.pool.tally.total = s.pool.started
  planned : (s.summary ex).completed + (s.summary ex).errored + (s.summary ex).interrupted +
    (s.summary ex).dropped = planned n ex

/-- With no VU the summary is empty; with one the drops fill up what was not counted. -/
theorem summary_eq_planned_iff (hle : s.pool.tally.total ≤ planned n ex) :
    (s.summary ex).completed + (s.summary ex).errored + (s.summary ex).interrupted +
        (s.summary ex).dropped = planned n ex ↔ (n = 0 → planned n ex = 0) := by
  rw [summary]
  by_cases hn : n = 0
  · simp only [RunSummary.default, hn, forall_const]
    exact eq_comm
  · simp only [hn, if_false, false_imp_iff, iff_true]
    rw [Tally.total] at hle ⊢
    omega

end IterationsState

open IterationsState

/-- A finished run conserves its planned iterations exactly when there is a VU to run
them and the hard stop cuts off no VU that was declined before its first iteration. -/
theorem iterations_conserves_iff {n : ℕ} {ex : IterationsExecutor} {s : IterationsState n}
    {es : List (IterationsEvent n)} (hrun : (iterationsSystem n ex).AnyRun es s)
    (hjoined : s.pool.Joined) :
    Conserves ex s ↔ (n = 0 → planned n ex = 0) ∧
      (iterationsSystem n ex).Runs (fun s e => ¬e.Stray s) es s := by
  have hinv := inv_of_anyRun hrun
  have htotal := hinv.accounts.total_of_joined hjoined
  have hstarted := hinv.started_le_planned
  rw [← strays_eq_zero_iff hrun]
  constructor
  · intro hc
    have hcounted := hc.counted
    have hzero : s.pool.strays = 0 := by omega
    exact ⟨(summary_eq_planned_iff (by omega)).mp hc.planned, hzero⟩
  · rintro ⟨hplan, hzero⟩
    refine ⟨hinv.budget, hstarted, ?_, by omega, (summary_eq_planned_iff (by omega)).mpr hplan⟩
    intro v
    have hbalanced := (hinv.accounts.balanced v).started
    rw [hjoined v] at hbalanced
    exact hbalanced.symm

/-- Two VUs share a budget of two, and one of them claims its iteration at the second attempt. -/
private def twoIterations : List (IterationsEvent 2) :=
  [.build 0, .build 1, .tally 0, .tally 1, .check 0, .check 1, .load 0 2, .load 1 2,
    .swap 1 false, .swap 0 false, .load 0 1, .swap 0 false, .boundary 1 .completed, .tally 1,
    .check 1, .load 1 0, .boundary 0 .errored, .tally 0, .check 0, .load 0 0, .finish 0, .finish 1]

theorem iterations_conserves_twoIterations :
    ∃ s : IterationsState 2, Conserves (.shared 2) s ∧ s.pool.tally = ⟨1, 1, 0⟩ := by
  obtain ⟨s, hrun, hjoined, htally⟩ :=
    (iterationsSystem 2 (.shared 2)).exists_run_of_exec twoIterations
      (P := fun s => s.pool.Joined ∧ s.pool.tally = ⟨1, 1, 0⟩) rfl (by decide)
  have hcalm : ∀ e ∈ twoIterations, ∀ v, e ≠ .hardCancel v := by simp [twoIterations]
  refine ⟨s, (iterations_conserves_iff hrun hjoined).mpr ⟨by decide, ?_⟩, htally⟩
  apply (hrun.restrict hcalm).mono
  intro s e he hstray
  cases e with
  | hardCancel v => exact he v rfl
  | _ => exact hstray

/-- A VU that finds the budget exhausted evaluates its script all the same; cut off
while the script's top level sleeps, it is counted as interrupted. -/
def strayInterruption : List (IterationsEvent 2) :=
  [.build 0, .tally 0, .check 0, .load 0 1, .swap 0 false, .boundary 0 .completed, .tally 0,
    .check 0, .load 0 0, .finish 0, .build 1, .tally 1, .check 1, .load 1 0, .fireHard,
    .hardCancel 1]

theorem not_conserves_strayInterruption :
    ∃ s : IterationsState 2, (iterationsSystem 2 (.shared 1)).AnyRun strayInterruption s ∧
      s.pool.Joined ∧ s.pool.started = 1 ∧ s.summary (.shared 1) = ⟨1, 0, 0, 1⟩ ∧
      ¬Conserves (.shared 1) s := by
  obtain ⟨s, hrun, hjoined, hstarted, hsummary⟩ :=
    (iterationsSystem 2 (.shared 1)).exists_run_of_exec strayInterruption
      (P := fun s => s.pool.Joined ∧ s.pool.started = 1 ∧
        s.summary (.shared 1) = ⟨1, 0, 0, 1⟩) rfl (by decide)
  refine ⟨s, hrun, hjoined, hstarted, hsummary, ?_⟩
  intro h
  have hplanned := h.planned
  rw [hsummary] at hplanned
  cases hplanned

end K6Rs
