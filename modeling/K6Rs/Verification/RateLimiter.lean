import K6Rs.Model.RateLimiter

/-! # How many acquires complete between two ticks of the rate limiter

An acquire gives its permit back before it returns, so a permit that exists serves any
number of acquires: the callers alone decide how many complete in a window. -/

namespace K6Rs

namespace RateLimiterInner

def outstanding (l : RateLimiterInner) : ℕ := l.semaphore.outstanding

/-- Permits exist, and nobody waits for one that is available. -/
structure Live (l : RateLimiterInner) : Prop where
  fair : l.semaphore.Fair
  total_pos : 0 < l.semaphore.total

theorem Live.of_total_le {l l' : RateLimiterInner} (h : l.Live) (hfair : l'.semaphore.Fair)
    (hle : l.semaphore.total ≤ l'.semaphore.total) : l'.Live :=
  ⟨hfair, h.total_pos.trans_le hle⟩

theorem live_replenish {l : RateLimiterInner} (h : l.Live) (max : ℕ) : (l.replenish max).Live := by
  unfold replenish
  simp only
  split
  · exact h.of_total_le (Semaphore.addPermits_fair h.fair _) (by simp)
  · exact h

theorem live_of_new {rps : ℕ} {l : RateLimiterInner} (h : RateLimiter.new rps = some l) :
    l.Live := by
  rw [RateLimiter.new] at h
  split at h
  · cases h
  · rename_i hrps
    cases h
    have hpos : 0 < rps := Nat.pos_of_ne_zero hrps
    exact ⟨Semaphore.fair_new rps, by simpa [Semaphore.total, Semaphore.new] using hpos⟩

/-- What a step does to the semaphore, unless it is a tick. -/
inductive Moves (l l' : RateLimiterInner) : Event → Prop where
  | call (c) : l'.semaphore = l.semaphore.acquire c → Moves l l' (.call c)
  | complete (c) : c ∈ l.semaphore.holding → l'.semaphore = l.semaphore.release c →
      Moves l l' (.complete c)
  | abandon (c) : c ∈ l.semaphore.waiting ∨ c ∈ l.semaphore.holding →
      l'.semaphore = l.semaphore.cancel c → Moves l l' (.abandon c)
  | startReplenish : l'.semaphore = l.semaphore → Moves l l' .startReplenish
  | cancel : l'.semaphore = l.semaphore → Moves l l' .cancel
  | tick (max) : l' = l.replenish max → Moves l l' .tick

theorem moves_of_step {l l' : RateLimiterInner} {e : Event} (h : l.step e = some l') :
    Moves l l' e := by
  cases e with
  | call c =>
      simp only [step] at h
      split at h
      · cases h
      · cases h
        exact .call c rfl
  | complete c =>
      simp only [step] at h
      split at h
      · rename_i hc
        cases h
        exact .complete c hc rfl
      · cases h
  | abandon c =>
      simp only [step] at h
      split at h
      · rename_i hc
        cases h
        exact .abandon c hc rfl
      · cases h
  | startReplenish =>
      simp only [step] at h
      split at h <;> cases h
      exact .startReplenish rfl
  | tick =>
      simp only [step] at h
      split at h <;> cases h
      exact .tick _ rfl
  | cancel =>
      simp only [step] at h
      split at h <;> cases h
      exact .cancel rfl

theorem live_step {l l' : RateLimiterInner} {e : Event} (h : l.Live) (hs : l.step e = some l') :
    l'.Live := by
  cases moves_of_step hs with
  | call c he => exact h.of_total_le (he ▸ Semaphore.acquire_fair h.fair c) (by simp [he])
  | complete c hc he =>
      exact h.of_total_le (he ▸ Semaphore.release_fair h.fair)
        (by rw [he, Semaphore.release_total hc])
  | abandon c hc he =>
      exact h.of_total_le (he ▸ Semaphore.cancel_fair h.fair)
        (by rw [he, Semaphore.cancel_total hc])
  | startReplenish he => exact h.of_total_le (he ▸ h.fair) (by rw [he])
  | cancel he => exact h.of_total_le (he ▸ h.fair) (by rw [he])
  | tick max he => exact he ▸ live_replenish h max

theorem live_of_run {rps : ℕ} {es : List Event} {l : RateLimiterInner}
    (h : (system rps).AnyRun es l) : l.Live :=
  h.invariant (I := Live) (fun _ => live_of_new) fun _ _ _ hl _ hs => live_step hl hs

/-! ## At most the demand completes -/

theorem step_balance {l l' : RateLimiterInner} {e : Event} (hs : l.step e = some l') :
    completions [e] + l'.outstanding ≤ l.outstanding + calls [e] := by
  cases moves_of_step hs with
  | call c he => simp [completions, calls, Event.isComplete, Event.isCall, outstanding, he]
  | complete c hc he =>
      have := Semaphore.release_outstanding hc
      simp [completions, calls, Event.isComplete, Event.isCall, outstanding, he]
      omega
  | abandon c hc he =>
      have := Semaphore.cancel_outstanding hc
      simp [completions, calls, Event.isComplete, Event.isCall, outstanding, he]
      omega
  | startReplenish he =>
      simp [completions, calls, Event.isComplete, Event.isCall, outstanding, he]
  | cancel he => simp [completions, calls, Event.isComplete, Event.isCall, outstanding, he]
  | tick max he =>
      have hsame : (l.replenish max).outstanding = l.outstanding := by
        unfold replenish outstanding
        simp only
        split <;> simp
      simp [completions, calls, Event.isComplete, Event.isCall, he, hsame]

theorem completions_cons (e : Event) (es : List Event) :
    completions (e :: es) = completions [e] + completions es := by
  simp only [completions, List.countP_cons, List.countP_nil]
  omega

theorem calls_cons (e : Event) (es : List Event) : calls (e :: es) = calls [e] + calls es := by
  simp only [calls, List.countP_cons, List.countP_nil]
  omega

theorem completions_append (es fs : List Event) :
    completions (es ++ fs) = completions es + completions fs :=
  List.countP_append

theorem calls_append (es fs : List Event) : calls (es ++ fs) = calls es + calls fs :=
  List.countP_append

theorem completions_le {rps : ℕ} {B : RateLimiterInner → Event → Bool} {ws : List Event}
    {l l' : RateLimiterInner} (h : (system rps).execWhen B l ws = some l') :
    completions ws + l'.outstanding ≤ l.outstanding + calls ws := by
  induction ws generalizing l with
  | nil =>
      cases h
      simp [completions, calls]
  | cons e ws ih =>
      simp only [StepSystem.execWhen] at h
      split at h
      · obtain ⟨t, hstep, hrest⟩ := Option.bind_eq_some_iff.mp h
        have hone := step_balance hstep
        have hmany := ih hrest
        rw [completions_cons, calls_cons]
        omega
      · cases h

/-! ## All of the demand can complete -/

/-- From `l` the events `ws`, none of them a tick, lead to `l'` where nobody is
outstanding and the replenisher is as it was. -/
structure Serves (rps : ℕ) (l : RateLimiterInner) (ws : List Event) (l' : RateLimiterInner) :
    Prop where
  exec : (system rps).execWhen (fun _ e => e ≠ .tick) l ws = some l'
  idle : l'.outstanding = 0
  live : l'.Live
  replenisher : l'.replenisher = l.replenisher

theorem step_complete {l : RateLimiterInner} {c : ℕ} (hc : c ∈ l.semaphore.holding) :
    l.step (.complete c) = some { l with semaphore := l.semaphore.release c } := by
  rw [step, if_pos hc]

theorem serves_outstanding (rps : ℕ) {l : RateLimiterInner} (h : l.Live) :
    ∃ ws l', Serves rps l ws l' ∧ calls ws = 0 ∧ completions ws = l.outstanding := by
  induction hn : l.outstanding generalizing l with
  | zero => exact ⟨[], l, ⟨rfl, hn, h, rfl⟩, rfl, rfl⟩
  | succ n ih =>
      obtain ⟨c, hc⟩ := Semaphore.exists_holding h.fair h.total_pos (by
        rw [outstanding] at hn
        omega)
      have hstep := step_complete hc
      have hout := Semaphore.release_outstanding hc
      obtain ⟨ws, l', hserves, hcalls, hcompletions⟩ := ih (live_step h hstep) (by
        rw [outstanding] at hn ⊢
        simp only
        omega)
      refine ⟨.complete c :: ws, l', ⟨?_, hserves.idle, hserves.live, hserves.replenisher⟩, ?_, ?_⟩
      · exact StepSystem.execWhen_cons (by simp) hstep hserves.exec
      · rw [calls_cons, hcalls]
        rfl
      · rw [completions_cons, hcompletions, Nat.add_comm]
        rfl

theorem step_call {l : RateLimiterInner} (h : l.outstanding = 0) (c : ℕ) :
    l.step (.call c) = some { l with semaphore := l.semaphore.acquire c } := by
  simp only [outstanding, Semaphore.outstanding, Nat.add_eq_zero_iff, List.length_eq_zero_iff] at h
  simp [step, h.1, h.2]

/-- One permit serves one caller after the other, as many as come. -/
theorem serves_calls (rps k : ℕ) {l : RateLimiterInner} (h : l.Live) (hidle : l.outstanding = 0) :
    ∃ ws l', Serves rps l ws l' ∧ calls ws = k ∧ completions ws = k := by
  induction k generalizing l with
  | zero => exact ⟨[], l, ⟨rfl, hidle, h, rfl⟩, rfl, rfl⟩
  | succ k ih =>
      have hstep := step_call hidle 0
      have hlive := live_step h hstep
      have hone : outstanding { l with semaphore := l.semaphore.acquire 0 } = 1 := by
        have := Semaphore.acquire_outstanding l.semaphore 0
        rw [outstanding] at hidle ⊢
        simp only
        omega
      obtain ⟨ws₁, l₁, hserves₁, hcalls₁, hcompletions₁⟩ := serves_outstanding rps hlive
      obtain ⟨ws₂, l₂, hserves₂, hcalls₂, hcompletions₂⟩ := ih hserves₁.live hserves₁.idle
      refine ⟨.call 0 :: (ws₁ ++ ws₂), l₂, ⟨?_, hserves₂.idle, hserves₂.live, ?_⟩, ?_, ?_⟩
      · refine StepSystem.execWhen_cons (by simp) hstep ?_
        exact StepSystem.execWhen_append hserves₁.exec hserves₂.exec
      · rw [hserves₂.replenisher, hserves₁.replenisher]
      · rw [calls_cons, calls_append, hcalls₁, hcalls₂]
        simp [calls, Event.isCall]
        omega
      · rw [completions_cons, completions_append, hcompletions₁, hcompletions₂, hone]
        simp [completions, Event.isComplete]
        omega

theorem step_tick_isSome {l : RateLimiterInner} :
    (l.step .tick).isSome = true ↔ ∃ max, l.replenisher = .ticking max := by
  simp only [step]
  split <;> simp_all

theorem ticking_of_tick {l l' : RateLimiterInner} (h : l.step .tick = some l') :
    ∃ max, l'.replenisher = .ticking max := by
  simp only [step] at h
  split at h <;> cases h
  rename_i max hmax
  refine ⟨max, ?_⟩
  unfold replenish
  simp only
  split <;> exact hmax

/-- In every window between two consecutive ticks of every run the completed acquires
stay within the rate for each behaviour of the callers that adds at most `k` calls,
exactly when the outstanding calls and these are not more than the rate anyway. -/
theorem window_within_rate_iff {rps : ℕ} {es : List Event} {l : RateLimiterInner}
    (hrun : (system rps).AnyRun (es ++ [.tick]) l) (k : ℕ) :
    (∀ ws l', Window rps l ws l' → calls ws ≤ k → completions ws ≤ rps) ↔
      l.outstanding + k ≤ rps := by
  have hlive := live_of_run hrun
  constructor
  · intro h
    obtain ⟨ws₁, l₁, hserves₁, hcalls₁, hcompletions₁⟩ := serves_outstanding rps hlive
    obtain ⟨ws₂, l₂, hserves₂, hcalls₂, hcompletions₂⟩ :=
      serves_calls rps k hserves₁.live hserves₁.idle
    have htick : (l₂.step .tick).isSome = true := by
      obtain ⟨before, -, -, hlast⟩ := hrun.last
      rw [step_tick_isSome, hserves₂.replenisher, hserves₁.replenisher]
      exact ticking_of_tick hlast
    have hexec := StepSystem.execWhen_append hserves₁.exec hserves₂.exec
    have := h _ _ ⟨hexec, htick⟩ (by rw [calls_append]; omega)
    rw [completions_append] at this
    omega
  · intro h ws l' hw hcalls
    have := completions_le hw.1
    omega

theorem window_within_rate_one : ∃ l, (system 1).AnyRun [.startReplenish, .tick] l ∧
    ∀ ws l', Window 1 l ws l' → calls ws ≤ 1 → completions ws ≤ 1 := by
  have hexec : ∃ l, (system 1).AnyRun [.startReplenish, .tick] l ∧ l.outstanding = 0 :=
    StepSystem.exists_run_of_exec _ (s := ⟨.new 1, .idle⟩) rfl (by decide)
  obtain ⟨l, hrun, hidle⟩ := hexec
  have hrun' : (system 1).AnyRun ([.startReplenish] ++ [.tick]) l := hrun
  exact ⟨l, hrun, (window_within_rate_iff hrun' 1).mpr (by rw [hidle])⟩

/-- Two calls between the first and the second tick. -/
def burst : List Event := [.call 0, .complete 0, .call 1, .complete 1]

/-- At a rate of one the burst completes, and the second tick follows. -/
theorem burst_exceeds_rate :
    ¬∀ rps, 0 < rps → ∀ es l ws l', (system rps).AnyRun (es ++ [.tick]) l → Window rps l ws l' →
      completions ws ≤ rps := by
  intro h
  have hburst : ∃ l, (system 1).AnyRun [.startReplenish, .tick] l ∧
      ∃ l' ∈ (system 1).execWhen (fun _ e => e ≠ .tick) l burst, (l'.step .tick).isSome = true :=
    StepSystem.exists_run_of_exec _ (s := ⟨.new 1, .idle⟩) rfl (by decide)
  obtain ⟨l, hrun, l', hexec, htick⟩ := hburst
  have := h 1 (by decide) [.startReplenish] l burst l' hrun ⟨hexec, htick⟩
  exact absurd this (by decide)

end RateLimiterInner

end K6Rs
