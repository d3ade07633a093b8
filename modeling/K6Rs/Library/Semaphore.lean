import Mathlib.Data.List.Basic
import Mathlib.Data.List.Nodup

/-! A counting semaphore that hands its permits to the waiting callers in the order in
which they came. A permit that is given back goes to the first waiter before it becomes
available again. -/

structure Semaphore (κ : Type*) where
  /-- The permits nobody holds. -/
  permits : ℕ
  waiting : List κ
  /-- The callers that hold a permit. -/
  holding : List κ
  deriving DecidableEq

namespace Semaphore

variable {κ : Type*}

def new (n : ℕ) : Semaphore κ := ⟨n, [], []⟩

def acquire (s : Semaphore κ) (c : κ) : Semaphore κ :=
  if 0 < s.permits then { s with permits := s.permits - 1, holding := s.holding ++ [c] }
  else { s with waiting := s.waiting ++ [c] }

/-- Hands `n` permits to waiters, as many as there are. -/
def addPermits (s : Semaphore κ) : ℕ → Semaphore κ
  | 0 => s
  | n + 1 =>
      match s.waiting with
      | [] => { s with permits := s.permits + (n + 1) }
      | c :: cs => addPermits { s with waiting := cs, holding := s.holding ++ [c] } n

variable [DecidableEq κ]

/-- The caller `c` gives its permit back. -/
def release (s : Semaphore κ) (c : κ) : Semaphore κ :=
  addPermits { s with holding := s.holding.erase c } 1

/-- The caller `c` gives up: it leaves the queue, or gives back the permit it was handed. -/
def cancel (s : Semaphore κ) (c : κ) : Semaphore κ :=
  if c ∈ s.waiting then { s with waiting := s.waiting.erase c } else s.release c

omit [DecidableEq κ]

/-- The permits that exist. -/
def total (s : Semaphore κ) : ℕ := s.permits + s.holding.length

/-- The callers that wait for a permit or hold one. -/
def outstanding (s : Semaphore κ) : ℕ := s.waiting.length + s.holding.length

/-- The callers that wait, and behind them those that hold a permit. -/
def callers (s : Semaphore κ) : List κ := s.waiting ++ s.holding

/-- Nobody waits while a permit is available. -/
def Fair (s : Semaphore κ) : Prop := 0 < s.permits → s.waiting = []

theorem fair_new (n : ℕ) : (new n : Semaphore κ).Fair := fun _ => rfl

theorem acquire_fair {s : Semaphore κ} (h : s.Fair) (c : κ) : (s.acquire c).Fair := by
  rw [acquire]
  split
  · rename_i hpos
    exact fun _ => h hpos
  · rename_i hzero
    exact fun hpos => absurd hpos hzero

@[simp] theorem acquire_total (s : Semaphore κ) (c : κ) : (s.acquire c).total = s.total := by
  rw [acquire]
  split
  · simp only [total, List.length_append, List.length_singleton]
    omega
  · rfl

@[simp] theorem acquire_outstanding (s : Semaphore κ) (c : κ) :
    (s.acquire c).outstanding = s.outstanding + 1 := by
  rw [acquire]
  split <;> simp only [outstanding, List.length_append, List.length_singleton] <;> omega

theorem callers_acquire (s : Semaphore κ) (c : κ) :
    (s.acquire c).callers.Perm (c :: s.callers) := by
  rw [acquire]
  split
  · simp only [callers, ← List.append_assoc]
    exact List.perm_append_singleton c _
  · simp only [callers, List.append_assoc, List.singleton_append]
    exact List.perm_middle

theorem addPermits_fair {s : Semaphore κ} (h : s.Fair) (n : ℕ) : (s.addPermits n).Fair := by
  fun_induction addPermits s n with
  | case1 s => exact h
  | case2 s n hw => exact fun _ => hw
  | case3 s n c cs hw ih =>
      apply ih
      intro hpos
      have := h hpos
      simp [hw] at this

@[simp] theorem addPermits_total (s : Semaphore κ) (n : ℕ) :
    (s.addPermits n).total = s.total + n := by
  fun_induction addPermits s n with
  | case1 s => rfl
  | case2 s n hw => simp only [total]; omega
  | case3 s n c cs hw ih =>
      rw [ih]
      simp only [total, List.length_append, List.length_singleton]
      omega

@[simp] theorem addPermits_outstanding (s : Semaphore κ) (n : ℕ) :
    (s.addPermits n).outstanding = s.outstanding := by
  fun_induction addPermits s n with
  | case1 s => rfl
  | case2 s n hw => rfl
  | case3 s n c cs hw ih =>
      rw [ih]
      simp only [outstanding, hw, List.length_append, List.length_cons, List.length_nil]
      omega

/-- Permits go to the first waiters, and what is left becomes available. -/
theorem holding_addPermits (s : Semaphore κ) (n : ℕ) :
    (s.addPermits n).holding = s.holding ++ s.waiting.take n := by
  fun_induction addPermits s n with
  | case1 s => simp
  | case2 s n hw => simp [hw]
  | case3 s n c cs hw ih => simp [ih, hw]

theorem waiting_addPermits (s : Semaphore κ) (n : ℕ) :
    (s.addPermits n).waiting = s.waiting.drop n := by
  fun_induction addPermits s n with
  | case1 s => rfl
  | case2 s n hw => simp [hw]
  | case3 s n c cs hw ih => simp [ih, hw]

section Callers

variable [DecidableEq κ] {s : Semaphore κ} {c : κ}

theorem holding_release : (s.release c).holding = s.holding.erase c ++ s.waiting.take 1 := by
  rw [release, holding_addPermits]

theorem waiting_release : (s.release c).waiting = s.waiting.drop 1 := by
  rw [release, waiting_addPermits]

theorem callers_release (hc : c ∉ s.waiting) : (s.release c).callers.Perm (s.callers.erase c) := by
  simp only [callers, holding_release, waiting_release, List.erase_append_right _ hc]
  rw [← List.append_assoc]
  refine List.perm_append_comm.trans ?_
  rw [← List.append_assoc, List.take_append_drop]

theorem callers_cancel (s : Semaphore κ) (c : κ) :
    (s.cancel c).callers.Perm (s.callers.erase c) := by
  rw [cancel]
  split
  · rename_i hw
    simp only [callers, List.erase_append_left _ hw]
    rfl
  · rename_i hw
    exact callers_release hw

theorem waiting_cancel_subset : (s.cancel c).waiting ⊆ s.waiting := by
  rw [cancel]
  split
  · exact List.erase_subset
  · rw [waiting_release]
    exact List.drop_subset 1 _

theorem not_mem_waiting_cancel (hs : s.waiting.Nodup) : c ∉ (s.cancel c).waiting := by
  rw [cancel]
  split
  · exact hs.not_mem_erase
  · rename_i hw
    rw [waiting_release]
    exact fun hc => hw (List.mem_of_mem_drop hc)

theorem release_fair (h : s.Fair) : (s.release c).Fair :=
  addPermits_fair (s := { s with holding := s.holding.erase c }) h 1

theorem release_total (hc : c ∈ s.holding) : (s.release c).total = s.total := by
  have hpos := List.length_pos_of_mem hc
  simp only [release, addPermits_total]
  simp only [total, List.length_erase_of_mem hc]
  omega

theorem release_outstanding (hc : c ∈ s.holding) :
    (s.release c).outstanding + 1 = s.outstanding := by
  have hpos := List.length_pos_of_mem hc
  simp only [release, addPermits_outstanding]
  simp only [outstanding, List.length_erase_of_mem hc]
  omega

theorem cancel_fair (h : s.Fair) : (s.cancel c).Fair := by
  rw [cancel]
  split
  · intro hpos
    simp [h hpos]
  · exact release_fair h

theorem cancel_total (hc : c ∈ s.waiting ∨ c ∈ s.holding) : (s.cancel c).total = s.total := by
  rw [cancel]
  split
  · rfl
  · rename_i hw
    exact release_total (hc.resolve_left hw)

theorem cancel_outstanding (hc : c ∈ s.waiting ∨ c ∈ s.holding) :
    (s.cancel c).outstanding + 1 = s.outstanding := by
  rw [cancel]
  split
  · rename_i hw
    have hpos := List.length_pos_of_mem hw
    simp only [outstanding, List.length_erase_of_mem hw]
    omega
  · rename_i hw
    exact release_outstanding (hc.resolve_left hw)

end Callers

/-! ### What the callers know -/

/-- Where a caller stands, as it knows itself: one that is queued may have been handed a
permit. -/
inductive Place where
  | out
  | queued
  | inside
  deriving DecidableEq

/-- The callers are in the queue or hold a permit as their places say. -/
structure Tracks (s : Semaphore κ) (place : κ → Place) : Prop where
  nodup : s.callers.Nodup
  callers : ∀ c, c ∈ s.callers ↔ place c ≠ .out
  waits : ∀ c ∈ s.waiting, place c = .queued

namespace Tracks

theorem new (n : ℕ) : (new n : Semaphore κ).Tracks fun _ => .out :=
  ⟨.nil, by simp [Semaphore.new, Semaphore.callers], by simp [Semaphore.new]⟩

variable {s : Semaphore κ} {place place' : κ → Place} {c d : κ}

theorem not_waiting_of_holding (h : s.Tracks place) (hc : c ∈ s.holding) : c ∉ s.waiting :=
  fun hw => (List.nodup_append.mp h.nodup).2.2 c hw c hc rfl

theorem not_waiting (h : s.Tracks place) (hc : place c ≠ .queued) : c ∉ s.waiting :=
  fun hw => hc (h.waits c hw)

theorem waiting_or_holding (h : s.Tracks place) (hc : place c ≠ .out) :
    c ∈ s.waiting ∨ c ∈ s.holding :=
  List.mem_append.mp ((h.callers c).mpr hc)

theorem holding_of_inside (h : s.Tracks place) (hc : place c = .inside) : c ∈ s.holding :=
  (h.waiting_or_holding (by simp [hc])).resolve_left (h.not_waiting (by simp [hc]))

theorem ne_out_of_holding (h : s.Tracks place) (hc : c ∈ s.holding) : place c ≠ .out :=
  (h.callers c).mp (List.mem_append_right _ hc)

/-- With one permit there is one holder. -/
theorem holder_unique (htotal : s.total = 1) (hc : c ∈ s.holding)
    (hd : d ∈ s.holding) : d = c := by
  have hlength : s.holding.length ≤ 1 := by
    rw [total] at htotal
    omega
  obtain ⟨a, ha⟩ := List.length_eq_one_iff.mp
    (Nat.le_antisymm hlength (List.length_pos_of_mem hc))
  simp only [ha, List.mem_singleton] at hc hd
  rw [hc, hd]

/-- A caller that comes is queued, unless it finds a permit. -/
theorem acquire (h : s.Tracks place) (hc : place c = .out)
    (hother : ∀ d, d ≠ c → place' d = place d)
    (hcomes : place' c = .queued ∨ 0 < s.permits ∧ place' c = .inside) :
    (s.acquire c).Tracks place' := by
  have hnew : c ∉ s.callers := fun hmem => (h.callers c).mp hmem hc
  have hperm := s.callers_acquire c
  refine ⟨hperm.nodup_iff.mpr (List.nodup_cons.mpr ⟨hnew, h.nodup⟩), fun d => ?_, fun d hd => ?_⟩
  · rw [hperm.mem_iff, List.mem_cons, h.callers d]
    by_cases hd : d = c
    · subst hd
      rcases hcomes with hcomes | ⟨_, hcomes⟩ <;> simp [hcomes]
    · simp [hd, hother d hd]
  · rw [Semaphore.acquire] at hd
    split at hd
    · have hdc : d ≠ c := fun heq => hnew (List.mem_append_left _ (heq ▸ hd))
      rw [hother d hdc]
      exact h.waits d hd
    · rename_i hzero
      rw [List.mem_append, List.mem_singleton] at hd
      by_cases hdc : d = c
      · subst hdc
        exact hcomes.resolve_right fun hpos => hzero hpos.1
      · rw [hother d hdc]
        exact h.waits d (hd.resolve_right hdc)

/-- A caller that goes in has a permit. -/
theorem goesIn (h : s.Tracks place) (hc : c ∈ s.holding)
    (hother : ∀ d, d ≠ c → place' d = place d) (hin : place' c ≠ .out) : s.Tracks place' := by
  refine ⟨h.nodup, fun d => ?_, fun d hd => ?_⟩
  · by_cases hd : d = c
    · subst hd
      exact iff_of_true (List.mem_append_right _ hc) hin
    · rw [hother d hd]
      exact h.callers d
  · have hdc : d ≠ c := fun heq => h.not_waiting_of_holding hc (heq ▸ hd)
    rw [hother d hdc]
    exact h.waits d hd

section Leave

variable [DecidableEq κ]

theorem of_erase {s' : Semaphore κ} (h : s.Tracks place)
    (hperm : s'.callers.Perm (s.callers.erase c)) (hwaits : s'.waiting ⊆ s.waiting)
    (hgone : c ∉ s'.waiting) (hother : ∀ d, d ≠ c → place' d = place d)
    (hout : place' c = .out) : s'.Tracks place' := by
  refine ⟨hperm.nodup_iff.mpr (h.nodup.erase c), fun d => ?_, fun d hd => ?_⟩
  · rw [hperm.mem_iff, h.nodup.mem_erase_iff]
    by_cases hd : d = c
    · subst hd
      simp [hout]
    · simp [hd, hother d hd, h.callers d]
  · have hdc : d ≠ c := fun heq => hgone (heq ▸ hd)
    rw [hother d hdc]
    exact h.waits d (hwaits hd)

theorem cancel (h : s.Tracks place) (hother : ∀ d, d ≠ c → place' d = place d)
    (hout : place' c = .out) : (s.cancel c).Tracks place' :=
  h.of_erase (s.callers_cancel c) waiting_cancel_subset
    (not_mem_waiting_cancel (List.nodup_append.mp h.nodup).1) hother hout

theorem release (h : s.Tracks place) (hc : c ∈ s.holding)
    (hother : ∀ d, d ≠ c → place' d = place d) (hout : place' c = .out) :
    (s.release c).Tracks place' := by
  have hcancel := h.cancel hother hout
  rwa [Semaphore.cancel, if_neg (h.not_waiting_of_holding hc)] at hcancel

end Leave

end Tracks

/-- While a permit exists and somebody is outstanding, somebody holds a permit. -/
theorem exists_holding {s : Semaphore κ} (h : s.Fair) (htotal : 0 < s.total)
    (hout : 0 < s.outstanding) : ∃ c, c ∈ s.holding := by
  apply List.exists_mem_of_ne_nil
  intro hnone
  have hpos : 0 < s.permits := by simpa [total, hnone] using htotal
  simp [outstanding, hnone, h hpos] at hout

end Semaphore
