import K6Rs.Model.RampingControl
import Mathlib.Algebra.Order.BigOperators.Group.Finset

/-! The gauge of the active VUs. Every step of a control changes the gauge by what it changes at the
control's own flag, so that the gauge counts the flags that are set. -/

namespace K6Rs

namespace VuGauge

/-- Up to the width of the counter, the gauge holds `k`. -/
def Holds (g : VuGauge) (k : ℕ) : Prop := g.value = UInt32.ofNat k

/-- A flag goes from `before` to `after` and takes the gauge with it; below the width of the counter
nothing is taken from zero. -/
def Moves (g g' : VuGauge) (before after : Bool) : Prop :=
  ∀ rest, g.Holds (rest + before.toNat) → g'.Holds (rest + after.toNat) ∧
    (rest + 1 < 2 ^ 32 → g'.underflows = g.underflows)

theorem moves_refl (g : VuGauge) (flag : Bool) : g.Moves g flag flag := fun _ h => ⟨h, fun _ => rfl⟩

theorem moves_fetchAdd (g : VuGauge) : g.Moves g.fetchAdd false true := by
  intro rest h
  refine ⟨?_, fun _ => rfl⟩
  rw [Holds, Bool.toNat_false, Nat.add_zero] at h
  rw [Holds, fetchAdd, h, Bool.toNat_true, UInt32.ofNat_add]
  rfl

theorem moves_fetchSub (g : VuGauge) : g.Moves g.fetchSub true false := by
  intro rest h
  rw [Holds, Bool.toNat_true] at h
  constructor
  · rw [Holds, fetchSub, h, Bool.toNat_false, Nat.add_zero, UInt32.ofNat_add]
    exact UInt32.add_sub_cancel _ 1
  · intro hroom
    have hne : g.value ≠ 0 := by
      intro hzero
      rw [h] at hzero
      have hnat := congrArg UInt32.toNat hzero
      rw [UInt32.toNat_ofNat_of_lt' hroom] at hnat
      exact Nat.succ_ne_zero rest hnat
    rw [fetchSub, if_neg hne]

end VuGauge

namespace RampingControl

theorem setActive_active (c : RampingControl) (active : Bool) (g : VuGauge) :
    (c.setActive active g).1.active = active := by
  rw [setActive]
  split
  · rfl
  · rename_i heq
    exact (not_not.mp heq).symm

/-- A control changes the gauge by what it changes at its flag. -/
theorem moves_setActive (c : RampingControl) (active : Bool) (g : VuGauge) :
    g.Moves (c.setActive active g).2 c.active active := by
  rw [setActive]
  split
  · rename_i hne
    cases active with
    | true =>
        rw [Bool.eq_false_iff.mpr hne.symm]
        exact g.moves_fetchAdd
    | false =>
        rw [(Bool.not_eq_false _).mp hne.symm]
        exact g.moves_fetchSub
  · rename_i heq
    rw [not_not.mp heq]
    exact g.moves_refl _

theorem drop_active (c : RampingControl) (g : VuGauge) : (c.drop g).1.active = false :=
  c.setActive_active false g

theorem moves_drop (c : RampingControl) (g : VuGauge) :
    g.Moves (c.drop g).2 c.active (c.drop g).1.active := by
  rw [drop_active]
  exact c.moves_setActive false g

theorem moves_pass (c : RampingControl) (version : ℕ) (active : Bool) (g : VuGauge) :
    g.Moves (c.pass version active g).2 c.active (c.pass version active g).1.active := by
  have hactive : (c.pass version active g).1.active = active :=
    setActive_active { c with seen := version } active g
  rw [hactive]
  exact moves_setActive { c with seen := version } active g

end RampingControl

namespace RampState

variable {n m : ℕ} {schedule : VuRampSchedule} {s s' : RampState n m}

/-- The gauge counts the flags that are set, and a control that is not in use has none. -/
structure Counted (s : RampState n m) : Prop where
  holds : s.gauge.Holds (s.held + s.activeControls)
  sound : n + m < 2 ^ 32 → s.gauge.underflows = 0
  unused : ∀ v, (s.controls v).pc = .unmade ∨ (s.controls v).pc = .dropped →
    (s.controls v).active = false

theorem counted_new : (new : RampState n m).Counted := by
  refine ⟨?_, fun _ => rfl, fun _ _ => rfl⟩
  simp [VuGauge.Holds, new, held, activeControls, RampingControl.unmade]

theorem sum_toNat_le {k : ℕ} (f : Fin k → Bool) : ∑ v, (f v).toNat ≤ k := by
  have hle : ∑ v, (f v).toNat ≤ ∑ _v : Fin k, 1 := Finset.sum_le_sum fun v _ => Bool.toNat_le (f v)
  simpa using hle

/-- The flags other than that of `v`. -/
theorem exists_others (s : RampState n m) (v : Fin n) :
    ∃ rest, (∀ c, s.held + ∑ w, (Function.update s.controls v c w).active.toNat =
      rest + c.active.toNat) ∧
      rest + 1 ≤ n + m := by
  have hsum : ∀ c, ∑ w, (Function.update s.controls v c w).active.toNat +
      (s.controls v).active.toNat =
      s.activeControls + c.active.toNat :=
    fun c => Finset.sum_update_add s.controls v c fun c => c.active.toNat
  have hunmade := hsum .unmade
  have hactive := hsum ⟨.outside, true, 0⟩
  have hcontrols :=
    sum_toNat_le fun w => (Function.update s.controls v ⟨.outside, true, 0⟩ w).active
  have hothers := sum_toNat_le s.others
  rw [← held] at hothers
  simp only [RampingControl.unmade, Bool.toNat_false, Bool.toNat_true] at hunmade hactive hcontrols
  refine ⟨s.held + ∑ w, (Function.update s.controls v ⟨.unmade, false, 0⟩ w).active.toNat, fun c =>
    ?_, ?_⟩
  · have hc := hsum c
    omega
  · omega

/-- A step that replaces one control, and takes the gauge with its flag. -/
theorem Counted.put {v : Fin n} {p : RampingControl × VuGauge} (h : s.Counted)
    (hmoves : s.gauge.Moves p.2 (s.controls v).active p.1.active)
    (hunused : p.1.pc = .unmade ∨ p.1.pc = .dropped → p.1.active = false) :
    (s.put v p).Counted := by
  obtain ⟨rest, hrest, hroom⟩ := s.exists_others v
  have hbefore := hrest (s.controls v)
  rw [Function.update_eq_self, ← activeControls] at hbefore
  obtain ⟨hholds, hsound⟩ := hmoves rest (hbefore ▸ h.holds)
  constructor
  · rw [← hrest p.1] at hholds
    exact hholds
  · intro hvus
    exact (hsound (hroom.trans_lt hvus)).trans (h.sound hvus)
  · intro w hw
    by_cases hwv : w = v
    · subst hwv
      simp only [RampState.put, Function.update_self] at hw ⊢
      exact hunused hw
    · simp only [RampState.put, Function.update_of_ne hwv] at hw ⊢
      exact h.unused w hw

theorem Counted.goto {v : Fin n} {pc : RampPc} (h : s.Counted)
    (hpc : pc = .unmade ∨ pc = .dropped → (s.controls v).active = false) : (s.goto v pc).Counted :=
  h.put (s.gauge.moves_refl _) hpc

theorem Counted.decide {v : Fin n} (h : s.Counted) : (s.decide v).Counted := by
  rw [RampState.decide]
  split
  · exact h.goto (by simp)
  · refine h.put (RampingControl.moves_pass _ _ _ _) fun hpc => ?_
    simp only [RampingControl.pass, RampingControl.goto] at hpc
    split at hpc <;> simp at hpc

theorem Counted.drop {v : Fin n} (h : s.Counted) :
    (s.put v ((s.controls v).drop s.gauge)).Counted :=
  h.put (RampingControl.moves_drop _ _) fun _ => RampingControl.drop_active _ _

/-- A VU of another executor starts or ends, and takes the gauge with it. -/
theorem Counted.putOther {w : Fin m} {flag : Bool} {g : VuGauge} (h : s.Counted)
    (hmoves : s.gauge.Moves g (s.others w) flag) :
    ({ s with others := Function.update s.others w flag, gauge := g } : RampState n m).Counted := by
  have hsum : ∀ b, ∑ j, (Function.update s.others w b j).toNat + (s.others w).toNat =
      s.held + b.toNat :=
    fun b => Finset.sum_update_add s.others w b Bool.toNat
  have hothers := sum_toNat_le (Function.update s.others w true)
  have hcontrols := sum_toNat_le fun v => (s.controls v).active
  have hfalse := hsum false
  have htrue := hsum true
  have hflag := hsum flag
  rw [← activeControls] at hcontrols
  rw [Bool.toNat_false] at hfalse
  rw [Bool.toNat_true] at htrue
  have hbefore : s.held + s.activeControls =
      ∑ j, (Function.update s.others w false j).toNat + s.activeControls + (s.others w).toNat := by
        omega
  obtain ⟨hholds, hsound⟩ := hmoves _ (hbefore ▸ h.holds)
  have hheld : ∑ j, (Function.update s.others w flag j).toNat + s.activeControls =
      ∑ j, (Function.update s.others w false j).toNat + s.activeControls + flag.toNat := by omega
  refine ⟨?_, fun hvus => ?_, h.unused⟩
  · rw [← hheld] at hholds
    exact hholds
  · exact (hsound (by omega)).trans (h.sound hvus)

theorem Counted.tick {elapsed : ℕ} (h : s.Counted) : (s.tick schedule elapsed).Counted := by
  rw [RampState.tick]
  split
  · exact ⟨h.holds, h.sound, h.unused⟩
  · exact h

/-- Every step keeps the count. -/
theorem Counted.step {e : Event n m} (h : s.Counted) (hs : s.step schedule e = some s') :
    s'.Counted := by
  cases e with
  | tick elapsed =>
      rw [RampState.step, Option.ite_none_right_eq_some, Option.some.injEq] at hs
      obtain ⟨-, rfl⟩ := hs
      exact h.tick
  | stop =>
      rw [RampState.step, Option.ite_none_right_eq_some, Option.some.injEq] at hs
      obtain ⟨-, rfl⟩ := hs
      exact ⟨h.holds, h.sound, h.unused⟩
  | exit =>
      rw [RampState.step, Option.ite_none_right_eq_some, Option.some.injEq] at hs
      obtain ⟨-, rfl⟩ := hs
      exact ⟨h.holds, h.sound, h.unused⟩
  | hold w =>
      rw [RampState.step, Option.ite_none_left_eq_some, Option.some.injEq] at hs
      obtain ⟨hw, rfl⟩ := hs
      refine h.putOther ?_
      rw [Bool.eq_false_iff.mpr hw]
      exact s.gauge.moves_fetchAdd
  | release w =>
      rw [RampState.step, Option.ite_none_right_eq_some, Option.some.injEq] at hs
      obtain ⟨hw, rfl⟩ := hs
      refine h.putOther ?_
      rw [hw]
      exact s.gauge.moves_fetchSub
  | build v =>
      rw [RampState.step, Option.ite_none_right_eq_some, Option.some.injEq] at hs
      obtain ⟨hpc, rfl⟩ := hs
      exact h.goto fun _ => h.unused v (.inl hpc)
  | buildFailed v =>
      rw [RampState.step, Option.ite_none_right_eq_some, Option.some.injEq] at hs
      obtain ⟨hpc, rfl⟩ := hs
      exact h.goto fun _ => h.unused v (.inl hpc)
  | next v =>
      rw [RampState.step, Option.ite_none_right_eq_some, Option.some.injEq] at hs
      obtain ⟨-, rfl⟩ := hs
      exact h.goto nofun
  | decide v =>
      rw [RampState.step, Option.ite_none_right_eq_some, Option.some.injEq] at hs
      obtain ⟨-, rfl⟩ := hs
      exact h.decide
  | changed v =>
      rw [RampState.step, Option.ite_none_right_eq_some, Option.some.injEq] at hs
      obtain ⟨-, rfl⟩ := hs
      exact h.goto nofun
  | stopped v =>
      rw [RampState.step, Option.ite_none_right_eq_some, Option.some.injEq] at hs
      obtain ⟨-, rfl⟩ := hs
      exact h.goto nofun
  | drop v =>
      rw [RampState.step, Option.ite_none_left_eq_some, Option.some.injEq] at hs
      obtain ⟨-, rfl⟩ := hs
      exact h.drop

/-- The gauge holds the VUs of the other executors and the controls whose flag is set, of which none
is left once all controls are dropped. Where the VUs fit into the counter, it never wraps around. -/
theorem gauge_counts_active {es : List (Event n m)} (h : (rampSystem n m schedule).AnyRun es s) :
    s.gauge.value = UInt32.ofNat (s.held + s.activeControls) ∧
    (n + m < 2 ^ 32 → s.gauge.value.toNat = s.held + s.activeControls ∧ s.gauge.underflows = 0) ∧
    ((∀ v, (s.controls v).pc = .dropped) → s.gauge.value = UInt32.ofNat s.held) := by
  have hcounted : s.Counted :=
    h.invariant (fun t ht => ht ▸ counted_new) fun _ _ _ ht _ hstep => ht.step hstep
  have hvalue := hcounted.holds
  refine ⟨hvalue, fun hvus => ⟨?_, hcounted.sound hvus⟩, fun hdropped => ?_⟩
  · have hothers := sum_toNat_le s.others
    have hcontrols := sum_toNat_le fun v => (s.controls v).active
    rw [← held] at hothers
    rw [← activeControls] at hcontrols
    have hfits : s.held + s.activeControls < 2 ^ 32 := by omega
    rw [hvalue, UInt32.toNat_ofNat_of_lt' hfits]
  · have hnone : s.activeControls = 0 := by
      rw [activeControls]
      exact Finset.sum_eq_zero fun v _ => by
        rw [hcounted.unused v (.inr (hdropped v)), Bool.toNat_false]
    rw [hvalue, hnone, Nat.add_zero]

/-- One VU for ten seconds. -/
def oneVu : VuRampSchedule := ⟨[⟨0, 10 ^ 10, 1, 1⟩], 10 ^ 10⟩

/-- The first VU is cut off in its iteration, the second never leaves its park before the stop. -/
def cutOff : List (Event 2 1) :=
  [.build 0, .build 1, .next 0, .next 1, .tick 0, .decide 0, .decide 1, .hold 0, .drop 0, .stop,
    .stopped 1, .drop 1]

theorem gauge_counts_active_cutOff : ∃ s,
    (rampSystem 2 1 oneVu).AnyRun cutOff s ∧ s.gauge.value = 1 := by
  have hexec : ∃ s, (rampSystem 2 1 oneVu).AnyRun cutOff s ∧ s.held = 1 ∧ ∀ v,
      (s.controls v).pc = .dropped :=
    StepSystem.exists_run_of_exec _ (s := .new) rfl (by decide +kernel)
  obtain ⟨s, hrun, hheld, hdropped⟩ := hexec
  obtain ⟨-, -, hrest⟩ := gauge_counts_active hrun
  refine ⟨s, hrun, ?_⟩
  rw [hrest hdropped, hheld]
  rfl

end RampState

end K6Rs
