import K6Rs.Model.Backpressure
import Mathlib.Data.Set.Card

/-! # Permits and the counter of requests in flight

A call counts up only while it has a permit, and counts down before it gives the permit
back, so the counter tells how many of the permits in use belong to a request in flight. -/

namespace K6Rs

/-- Where the call stands at the semaphore. -/
def PermitPc.place : PermitPc → Semaphore.Place
  | .idle => .out
  | .acquiring => .queued
  | .acquired | .inFlight | .dropping => .inside

namespace Backpressure

variable {maxInFlight : ℕ} {b b' : Backpressure} {c : ℕ}

@[simp] theorem setCall_semaphore (b : Backpressure) (c : ℕ) (pc : PermitPc) :
    (b.setCall c pc).semaphore = b.semaphore := rfl

@[simp] theorem setCall_maxInFlight (b : Backpressure) (c : ℕ) (pc : PermitPc) :
    (b.setCall c pc).maxInFlight = b.maxInFlight := rfl

@[simp] theorem setCall_currentInFlight (b : Backpressure) (c : ℕ) (pc : PermitPc) :
    (b.setCall c pc).currentInFlight = b.currentInFlight := rfl

@[simp] theorem setCall_calls (b : Backpressure) (c : ℕ) (pc : PermitPc) :
    (b.setCall c pc).calls = Function.update b.calls c pc := rfl

/-- The permits in use by a request that is counted. -/
def counted (b : Backpressure) : ℕ := b.semaphore.callers.countP (b.calls · = .inFlight)

structure Invariant (maxInFlight : ℕ) (b : Backpressure) : Prop where
  total : b.semaphore.total = maxInFlight
  max : b.maxInFlight = maxInFlight
  bound : maxInFlight ≤ MAX_PERMITS
  tracks : b.semaphore.Tracks fun c => (b.calls c).place
  counter : b.inFlight = b.counted

namespace Invariant

variable (h : Invariant maxInFlight b)
include h

/-- A counted request holds a permit. -/
theorem counted_eq : b.counted = b.semaphore.holding.countP (b.calls · = .inFlight) := by
  have hzero : b.semaphore.waiting.countP (b.calls · = .inFlight) = 0 := by
    rw [List.countP_eq_zero]
    intro c hc hcounted
    have hplace := h.tracks.waits c hc
    simp [of_decide_eq_true hcounted, PermitPc.place] at hplace
  rw [counted, Semaphore.callers, List.countP_append, hzero, Nat.zero_add]

theorem inFlight_le_heldPermits : b.inFlight ≤ b.heldPermits := by
  rw [h.counter, h.counted_eq]
  exact List.countP_le_length

theorem heldPermits_le : b.heldPermits ≤ maxInFlight := by
  have := h.total
  rw [Semaphore.total] at this
  rw [heldPermits]
  omega

theorem inFlight_lt : b.inFlight + 1 < 2 ^ 64 := by
  have hheld := h.inFlight_le_heldPermits
  have hmax := h.heldPermits_le
  have hbound := h.bound
  simp only [MAX_PERMITS] at hbound
  omega

theorem mem_holding_iff : c ∈ b.semaphore.holding ↔ b.Holds c := by
  rw [Holds]
  split
  · rename_i hpc
    rw [iff_false]
    intro hc
    exact h.tracks.ne_out_of_holding hc (by rw [hpc, PermitPc.place])
  · rename_i hpc
    have hmem := h.tracks.waiting_or_holding (c := c) (by simp [hpc, PermitPc.place])
    exact ⟨fun hc => h.tracks.not_waiting_of_holding hc, fun hw => hmem.resolve_left hw⟩
  all_goals
    rename_i hpc
    exact iff_of_true (h.tracks.holding_of_inside (by rw [hpc, PermitPc.place])) trivial

end Invariant

/-! ## The count after a step -/

theorem countP_update_of_not_mem {l : List ℕ} {calls : ℕ → PermitPc} {pc : PermitPc}
    (hc : c ∉ l) : l.countP (fun d => decide (Function.update calls c pc d = .inFlight)) =
      l.countP (calls · = .inFlight) := by
  apply List.countP_congr
  intro d hd
  have hne : d ≠ c := fun heq => hc (heq ▸ hd)
  simp [hne]

/-- The count without the call `c`. -/
theorem countP_erase {l : List ℕ} {calls : ℕ → PermitPc} (hc : c ∈ l) :
    l.countP (calls · = .inFlight) =
      (l.erase c).countP (calls · = .inFlight) + if calls c = .inFlight then 1 else 0 := by
  rw [(List.perm_cons_erase hc).countP_eq, List.countP_cons]
  simp

/-- The count after the call `c` has gone from one place to the next. -/
theorem countP_update {l : List ℕ} {calls : ℕ → PermitPc} {pc : PermitPc} (hl : l.Nodup)
    (hc : c ∈ l) : l.countP (fun d => decide (Function.update calls c pc d = .inFlight)) =
      (l.erase c).countP (calls · = .inFlight) + if pc = .inFlight then 1 else 0 := by
  have hother : (l.erase c).countP (fun d => decide (Function.update calls c pc d = .inFlight)) =
      _ :=
    countP_update_of_not_mem hl.not_mem_erase
  rw [← hother, countP_erase hc, Function.update_self]

theorem Invariant.inFlight_pos (h : Invariant maxInFlight b) (hc : b.calls c = .inFlight) :
    0 < b.inFlight := by
  rw [h.counter, counted, List.countP_pos_iff]
  exact ⟨c, (h.tracks.callers c).mpr (by simp [hc, PermitPc.place]), by simpa using hc⟩

/-- `fetch_sub` does not wrap around while a request is counted. -/
theorem inFlight_countOff (hpos : 0 < b.inFlight) :
    (b.currentInFlight - 1).toNat + 1 = b.inFlight := by
  have hle : (1 : UInt64) ≤ b.currentInFlight := by
    rw [UInt64.le_iff_toNat_le]
    exact hpos
  rw [UInt64.toNat_sub_of_le _ _ hle]
  exact Nat.sub_add_cancel hpos

theorem inFlight_count (hlt : b.inFlight + 1 < 2 ^ 64) :
    (b.currentInFlight + 1).toNat = b.inFlight + 1 := by
  rw [UInt64.toNat_add]
  exact Nat.mod_eq_of_lt hlt

/-! ## What a step preserves -/

theorem place_setCall_of_ne {pc : PermitPc} (d : ℕ) (hd : d ≠ c) :
    ((b.setCall c pc).calls d).place = (b.calls d).place := by
  rw [setCall_calls, Function.update_of_ne hd]

theorem place_setCall_self {pc : PermitPc} : ((b.setCall c pc).calls c).place = pc.place := by
  rw [setCall_calls, Function.update_self]

/-- A call that comes. -/
theorem Invariant.comes (h : Invariant maxInFlight b) (hc : b.calls c = .idle) {pc : PermitPc}
    (hpc : pc = .acquiring ∨ 0 < b.semaphore.permits ∧ pc = .acquired) :
    Invariant maxInFlight { b.setCall c pc with semaphore := b.semaphore.acquire c } := by
  have hout : (b.calls c).place = .out := by rw [hc, PermitPc.place]
  have hnew : c ∉ b.semaphore.callers := fun hmem => (h.tracks.callers c).mp hmem hout
  refine ⟨(b.semaphore.acquire_total c).trans h.total, h.max, h.bound, ?_, ?_⟩
  · refine h.tracks.acquire hout place_setCall_of_ne ?_
    rw [show ((b.setCall c pc).calls c).place = pc.place from place_setCall_self]
    rcases hpc with rfl | ⟨hpos, rfl⟩
    · exact .inl rfl
    · exact .inr ⟨hpos, rfl⟩
  · have hne : pc ≠ .inFlight := by rcases hpc with rfl | ⟨_, rfl⟩ <;> simp
    change b.inFlight = _
    rw [h.counter, counted, counted, (b.semaphore.callers_acquire c).countP_eq, List.countP_cons]
    simp only [setCall_calls, Function.update_self, hne, decide_false, Bool.false_eq_true,
      if_false, Nat.add_zero]
    exact (countP_update_of_not_mem hnew).symm

/-- A call that leaves gives up its place at the semaphore. -/
theorem Invariant.leaves (h : Invariant maxInFlight b) (hc : (b.calls c).place ≠ .out)
    (hcounted : b.calls c ≠ .inFlight) :
    Invariant maxInFlight { b.setCall c .idle with semaphore := b.semaphore.cancel c } := by
  refine ⟨?_, h.max, h.bound, ?_, ?_⟩
  · exact (Semaphore.cancel_total (h.tracks.waiting_or_holding hc)).trans h.total
  · exact h.tracks.cancel place_setCall_of_ne place_setCall_self
  · change b.inFlight = _
    rw [h.counter, counted, counted, (b.semaphore.callers_cancel c).countP_eq,
      countP_erase ((h.tracks.callers c).mpr hc), if_neg hcounted]
    exact (countP_update_of_not_mem h.tracks.nodup.not_mem_erase).symm

/-- A call that goes on with the permit it holds. -/
theorem Invariant.goesOn (h : Invariant maxInFlight b) (hc : c ∈ b.semaphore.holding)
    {pc : PermitPc} (hpc : pc.place ≠ .out) {counter : UInt64}
    (hcounter : counter.toNat + (if b.calls c = .inFlight then 1 else 0) =
      b.inFlight + if pc = .inFlight then 1 else 0) :
    Invariant maxInFlight { b.setCall c pc with currentInFlight := counter } := by
  have hmem : c ∈ b.semaphore.callers := List.mem_append_right _ hc
  refine ⟨h.total, h.max, h.bound, ?_, ?_⟩
  · refine h.tracks.goesIn hc place_setCall_of_ne ?_
    rwa [show ((b.setCall c pc).calls c).place = pc.place from place_setCall_self]
  · change counter.toNat = _
    have hbefore := h.counter
    rw [counted, countP_erase hmem] at hbefore
    have hafter : (b.semaphore.callers.countP fun d => Function.update b.calls c pc d = .inFlight) =
        _ := countP_update h.tracks.nodup hmem
    refine Eq.trans ?_ hafter.symm
    apply Nat.add_right_cancel (m := if b.calls c = .inFlight then 1 else 0)
    rw [hcounter, hbefore]
    exact Nat.add_right_comm _ _ _

theorem Invariant.init (hinit : (backpressureSystem maxInFlight).init b) :
    Invariant maxInFlight b := by
  simp only [backpressureSystem, new] at hinit
  split at hinit
  · rename_i hbound
    cases hinit
    exact ⟨rfl, rfl, hbound, .new maxInFlight, rfl⟩
  · cases hinit

theorem Invariant.step {e : Event} (h : Invariant maxInFlight b) (hs : b.step e = some b') :
    Invariant maxInFlight b' := by
  have inside : ∀ c, (b.calls c).place = .inside → c ∈ b.semaphore.holding :=
    fun c => h.tracks.holding_of_inside
  cases e with
  | acquire c =>
      simp only [Backpressure.step] at hs
      split at hs
      · rename_i hidle
        cases hs
        refine h.comes hidle ?_
        split
        · rename_i hpos
          exact .inr ⟨hpos, rfl⟩
        · exact .inl rfl
      · cases hs
  | wake c =>
      simp only [Backpressure.step] at hs
      split at hs
      · rename_i hc
        cases hs
        exact h.goesOn hc.2 (by simp [PermitPc.place]) (by simp [hc.1, inFlight])
      · cases hs
  | cancel c =>
      simp only [Backpressure.step] at hs
      split at hs
      · rename_i hc
        cases hs
        exact h.leaves (by simp [hc, PermitPc.place]) (by simp [hc])
      · cases hs
  | tryAcquire c =>
      simp only [Backpressure.step] at hs
      split at hs
      · rename_i hidle
        split at hs
        · rename_i hpos
          cases hs
          exact h.comes hidle (.inr ⟨hpos, rfl⟩)
        · cases hs
          exact h
      · cases hs
  | count c =>
      simp only [Backpressure.step] at hs
      split at hs
      · rename_i hc
        cases hs
        refine h.goesOn (inside c (by rw [hc, PermitPc.place])) (by simp [PermitPc.place]) ?_
        simp only [hc, reduceCtorEq, if_false, if_true, Nat.add_zero]
        exact inFlight_count h.inFlight_lt
      · cases hs
  | countOff c =>
      simp only [Backpressure.step] at hs
      split at hs
      · rename_i hc
        cases hs
        refine h.goesOn (inside c (by rw [hc, PermitPc.place])) (by simp [PermitPc.place]) ?_
        simp only [hc, reduceCtorEq, if_false, if_true, Nat.add_zero]
        exact inFlight_countOff (h.inFlight_pos hc)
      · cases hs
  | giveBack c =>
      simp only [Backpressure.step] at hs
      split at hs
      · rename_i hc
        cases hs
        have hin := inside c (by rw [hc, PermitPc.place])
        have hleaves := h.leaves (c := c) (by simp [hc, PermitPc.place]) (by simp [hc])
        rwa [Semaphore.cancel, if_neg (h.tracks.not_waiting_of_holding hin)] at hleaves
      · cases hs

theorem Invariant.of_run {es : List Event}
    (hrun : (backpressureSystem maxInFlight).AnyRun es b) : Invariant maxInFlight b :=
  hrun.invariant (fun _ => Invariant.init) fun _ _ _ h _ hs => h.step hs

/-- The permits that are held are those of the calls that hold one. -/
theorem Invariant.heldPermits_eq (h : Invariant maxInFlight b) :
    {c | b.Holds c}.ncard = b.heldPermits := by
  have hnodup := (List.nodup_append.mp h.tracks.nodup).2.1
  have hset : {c | b.Holds c} = b.semaphore.holding.toFinset := by
    ext c
    simp [h.mem_holding_iff]
  rw [hset, Set.ncard_coe_finset, List.toFinset_card_of_nodup hnodup, heldPermits]

end Backpressure

/-- A permit is available or held by one call. The counter is at most the number of permits
that are held, and counts off only what was counted. -/
theorem permits_in_step {maxInFlight : ℕ} {es : List Backpressure.Event} {b : Backpressure}
    (h : (backpressureSystem maxInFlight).AnyRun es b) :
    b.maxInFlight = maxInFlight ∧ b.availablePermits + b.heldPermits = maxInFlight ∧
      {c | b.Holds c}.ncard = b.heldPermits ∧ b.inFlight ≤ b.heldPermits ∧
      (∀ c b', b.step (.countOff c) = some b' → b'.inFlight + 1 = b.inFlight) ∧
      ((∀ c, ¬b.Holds c) → b.inFlight = 0 ∧ b.availablePermits = maxInFlight) := by
  have hinv := Backpressure.Invariant.of_run h
  have htotal : b.availablePermits + b.heldPermits = maxInFlight := hinv.total
  refine ⟨hinv.max, htotal, hinv.heldPermits_eq, hinv.inFlight_le_heldPermits, ?_, ?_⟩
  · intro c b' hs
    simp only [Backpressure.step] at hs
    split at hs
    · rename_i hc
      cases hs
      exact Backpressure.inFlight_countOff (hinv.inFlight_pos hc)
    · cases hs
  · intro hnone
    have hheld : b.heldPermits = 0 := by
      rw [← hinv.heldPermits_eq]
      simp [hnone]
    have hle := hinv.inFlight_le_heldPermits
    omega

/-- One of two permits is used by a request, the other was handed to a call that waited. -/
theorem permits_in_step_handed : ∃ b : Backpressure,
    b.maxInFlight = 2 ∧ b.availablePermits + b.heldPermits = 2 ∧
      {c | b.Holds c}.ncard = b.heldPermits ∧ b.inFlight ≤ b.heldPermits ∧
      (∀ c b', b.step (.countOff c) = some b' → b'.inFlight + 1 = b.inFlight) ∧
      ((∀ c, ¬b.Holds c) → b.inFlight = 0 ∧ b.availablePermits = 2) := by
  obtain ⟨b, hrun, _⟩ : ∃ b, (backpressureSystem 2).AnyRun [.acquire 0, .tryAcquire 1, .count 0,
      .count 1, .acquire 2, .acquire 3, .cancel 2, .countOff 1, .giveBack 1] b ∧ b.inFlight = 1 :=
    StepSystem.exists_run_of_exec _ (s := ⟨.new 2, 2, 0, fun _ => .idle⟩) rfl (by decide +kernel)
  exact ⟨b, permits_in_step hrun⟩

end K6Rs
