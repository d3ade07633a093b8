import Mathlib.Data.List.Basic
import Mathlib.Data.Finset.Basic
import Mathlib.Algebra.BigOperators.Group.Finset.Basic
import Mathlib.Data.Fintype.Basic

/-! Systems that take one step per event, their runs, and the induction rules
for what holds along a run. A run may be restricted to steps that meet a
condition on the state they start from. -/

/-! The numerals of `Fin 1` and `Fin 2` are read with these instances, whatever else of Mathlib a
module imports; a statement about one or two parties then means the same everywhere. -/

instance neZeroOne : @NeZero ℕ Zero.ofOfNat0 1 := ⟨Nat.one_ne_zero⟩

instance neZeroTwo : @NeZero ℕ Zero.ofOfNat0 2 := ⟨Nat.succ_ne_zero 1⟩

/-- A sum over the parties of a system changes by what changes for the one that steps. -/
theorem Finset.sum_update_add {ι α : Type*} [Fintype ι] [DecidableEq ι] (f : ι → α) (i : ι) (a : α)
    (g : α → ℕ) :
    ∑ j, g (Function.update f i a j) + g (f i) = ∑ j, g (f j) + g a := by
  have hcongr : ∀ j ∈ Finset.univ.erase i, g (Function.update f i a j) = g (f j) := by
    intro j hj
    rw [Function.update_of_ne (Finset.ne_of_mem_erase hj)]
  rw [← Finset.sum_erase_add _ _ (Finset.mem_univ i), ← Finset.sum_erase_add _ _
    (Finset.mem_univ i), Finset.sum_congr rfl hcongr, Function.update_self]
  exact Nat.add_right_comm _ _ _

/-- `step s e` is the state after the event `e`; it is `none` when `e` cannot
happen in `s`. -/
structure StepSystem (σ ε : Type*) where
  init : σ → Prop
  step : σ → ε → Option σ

namespace StepSystem

variable {σ ε : Type*} (sys : StepSystem σ ε)

/-- `Runs C es s`: the events `es` lead from an initial state to `s`, and every
step of the run meets `C` in the state it starts from. -/
inductive Runs (C : σ → ε → Prop) : List ε → σ → Prop where
  | start {s} : sys.init s → Runs C [] s
  | next {es s e s'} : Runs C es s → C s e → sys.step s e = some s' →
      Runs C (es ++ [e]) s'

/-- The condition that every step meets. -/
def anyStep : σ → ε → Prop := fun _ _ => True

/-- The runs of the system, without a condition on the steps. -/
abbrev AnyRun : List ε → σ → Prop := sys.Runs anyStep

/-- The system from the state `s` on. -/
def after (s : σ) : StepSystem σ ε := { sys with init := (· = s) }

variable {sys} {C D : σ → ε → Prop}

/-- What holds initially and is preserved by every step that meets the condition
holds at the end of every run. -/
theorem Runs.invariant {I : σ → Prop} (hinit : ∀ s, sys.init s → I s)
    (hstep : ∀ s e s', I s → C s e → sys.step s e = some s' → I s')
    {es : List ε} {s : σ} (h : sys.Runs C es s) : I s := by
  induction h with
  | start hs => exact hinit _ hs
  | next _ hc hs ih => exact hstep _ _ _ ih hc hs

theorem Runs.mono (hCD : ∀ s e, C s e → D s e) {es : List ε} {s : σ}
    (h : sys.Runs C es s) : sys.Runs D es s := by
  induction h with
  | start hs => exact .start hs
  | next _ hc hs ih => exact .next ih (hCD _ _ hc) hs

theorem Runs.any {es : List ε} {s : σ} (h : sys.Runs C es s) : sys.AnyRun es s :=
  h.mono fun _ _ _ => trivial

/-- A run meets a condition on events alone when all its events do. -/
theorem Runs.restrict {E : ε → Prop} {es : List ε} {s : σ} (h : sys.AnyRun es s)
    (hes : ∀ e ∈ es, E e) : sys.Runs (fun _ e => E e) es s := by
  induction h with
  | start hs => exact .start hs
  | next _ _ hs ih =>
      simp only [List.mem_append, List.mem_singleton] at hes
      exact .next (ih fun e he => hes e (.inl he)) (hes _ (.inr rfl)) hs

theorem Runs.forall_mem {E : ε → Prop} {es : List ε} {s : σ} (h : sys.Runs (fun _ e => E e) es s) :
    ∀ e ∈ es, E e := by
  induction h with
  | start => exact nofun
  | next _ he _ ih =>
      intro e hmem
      rcases List.mem_append.mp hmem with hmem | hmem
      · exact ih e hmem
      · rw [List.mem_singleton.mp hmem]
        exact he

theorem Runs.last {es : List ε} {e : ε} {s : σ} (h : sys.Runs C (es ++ [e]) s) :
    ∃ t, sys.Runs C es t ∧ C t e ∧ sys.step t e = some s := by
  generalize hes : es ++ [e] = fs at h
  cases h with
  | start => simp at hes
  | next hrun hc hs =>
      obtain ⟨rfl, he⟩ := List.append_inj' hes rfl
      cases he
      exact ⟨_, hrun, hc, hs⟩

/-- Where bad steps destroy what no step can bring back, a run that ends with it has no
bad step. -/
theorem Runs.avoids {F : σ → Prop} {bad : σ → ε → Prop}
    (hF : ∀ s e s', C s e → sys.step s e = some s' → F s' → F s)
    (hbad : ∀ s e s', bad s e → sys.step s e = some s' → ¬F s')
    {es : List ε} {s : σ} (h : sys.Runs C es s) (hend : F s) :
    sys.Runs (fun s e => ¬bad s e) es s := by
  induction h with
  | start hs => exact .start hs
  | next _ hc hs ih =>
      exact .next (ih (hF _ _ _ hc hs hend)) (fun hb => hbad _ _ _ hb hs hend) hs

/-- What holds at first, and ends with the first bad step for good, holds at the end of exactly
the runs without a bad step. -/
theorem Runs.holds_iff_avoids {I F : σ → Prop} {bad : σ → ε → Prop}
    (hinit : ∀ s, sys.init s → I s ∧ F s)
    (hstep : ∀ s e s', I s → sys.step s e = some s' → I s')
    (hF : ∀ s e s', I s → sys.step s e = some s' → (F s' ↔ F s ∧ ¬bad s e))
    {es : List ε} {s : σ} (h : sys.AnyRun es s) :
    F s ↔ sys.Runs (fun s e => ¬bad s e) es s := by
  constructor
  · intro hend
    induction h with
    | start hs => exact .start hs
    | next hrun _ hs ih =>
        have hinv := hrun.invariant (fun s hs => (hinit s hs).1) fun _ _ _ hI _ => hstep _ _ _ hI
        obtain ⟨hbefore, hgood⟩ := (hF _ _ _ hinv hs).mp hend
        exact .next (ih hbefore) hgood hs
  · intro hrun
    have hall : I s ∧ F s := hrun.invariant (I := fun s => I s ∧ F s) hinit
      fun s e s' h hgood hs => ⟨hstep s e s' h.1 hs, (hF s e s' h.1 hs).mpr ⟨h.2, hgood⟩⟩
    exact hall.2

/-- A counter that only rises, and rises at exactly the bad steps, stays at zero
exactly in the runs without a bad step. -/
theorem Runs.counter_eq_zero_iff {μ : σ → ℕ} {bad : σ → ε → Prop}
    (hinit : ∀ s, sys.init s → μ s = 0)
    (hbad : ∀ s e s', bad s e → sys.step s e = some s' → μ s < μ s')
    (hgood : ∀ s e s', ¬bad s e → sys.step s e = some s' → μ s' = μ s)
    {es : List ε} {s : σ} (h : sys.AnyRun es s) :
    μ s = 0 ↔ sys.Runs (fun s e => ¬bad s e) es s := by
  constructor
  · refine h.avoids (F := fun s => μ s = 0) (fun s e s' _ hs hzero => ?_) fun s e s' hb hs => ?_
    · by_cases hb : bad s e
      · have := hbad s e s' hb hs
        omega
      · rw [← hgood s e s' hb hs, hzero]
    · have := hbad s e s' hb hs
      omega
  · clear h
    intro h
    induction h with
    | start hs => exact hinit _ hs
    | next _ hc hs ih => rw [hgood _ _ _ hc hs, ih]

/-- A run whose condition holds in the invariant states of another condition. -/
theorem Runs.imp {I : σ → Prop} (hinit : ∀ s, sys.init s → I s)
    (hstep : ∀ s e s', I s → C s e → sys.step s e = some s' → I s')
    (hCD : ∀ s e s', I s → C s e → sys.step s e = some s' → D s e)
    {es : List ε} {s : σ} (h : sys.Runs C es s) : sys.Runs D es s := by
  induction h with
  | start hs => exact .start hs
  | next hrun hc hs ih => exact .next ih (hCD _ _ _ (hrun.invariant hinit hstep) hc hs) hs

/-- What holds in a state and is preserved by every step holds in every later state. -/
theorem Runs.after_invariant {I : σ → Prop} {s t : σ} (hs : I s)
    (hstep : ∀ s e s', I s → C s e → sys.step s e = some s' → I s')
    {fs : List ε} (h : (sys.after s).Runs C fs t) : I t := by
  induction h with
  | start ht => exact ht ▸ hs
  | next _ hc hst ih => exact hstep _ _ _ ih hc hst

/-- What no step can bring back held all along. -/
theorem Runs.persist {F : σ → Prop} (hF : ∀ s e s', C s e → sys.step s e = some s' → F s' → F s)
    {es : List ε} {s : σ} (h : sys.Runs C es s) (hend : F s) :
    sys.Runs (fun s e => C s e ∧ F s) es s := by
  induction h with
  | start hs => exact .start hs
  | next _ hc hstep ih =>
      have hbefore := hF _ _ _ hc hstep hend
      exact .next (ih hbefore) ⟨hc, hbefore⟩ hstep

/-- What holds in every state of a run holds before and after each of its steps. -/
theorem Runs.before_after {P : σ → Prop} {es : List ε} {s : σ}
    (h : sys.Runs (fun s e => P s ∧ C s e) es s) (hend : P s) :
    sys.Runs (fun s e => P s ∧ C s e ∧ ∀ s', sys.step s e = some s' → P s') es s := by
  induction h with
  | start hs => exact .start hs
  | next _ hc hstep ih =>
      refine .next (ih hc.1) ⟨hc.1, hc.2, fun s' hs' => ?_⟩ hstep
      rw [hstep] at hs'
      exact Option.some.inj hs' ▸ hend

/-! ### Executing a run -/

/-- The state after the events `es`, when all of them can happen and meet `C`. -/
def execWhen (sys : StepSystem σ ε) (C : σ → ε → Bool) : σ → List ε → Option σ
  | s, [] => some s
  | s, e :: es => if C s e then (sys.step s e).bind fun s' => execWhen sys C s' es else none

theorem execWhen_nil {B : σ → ε → Bool} {s : σ} : sys.execWhen B s [] = some s := rfl

theorem execWhen_cons {B : σ → ε → Bool} {e : ε} {es : List ε} {s s' t : σ} (hB : B s e = true)
    (hs : sys.step s e = some s') (h : sys.execWhen B s' es = some t) :
    sys.execWhen B s (e :: es) = some t := by
  rw [execWhen, if_pos hB, hs]
  exact h

theorem execWhen_append {B : σ → ε → Bool} {es fs : List ε} {s s' t : σ}
    (h : sys.execWhen B s es = some s') (h' : sys.execWhen B s' fs = some t) :
    sys.execWhen B s (es ++ fs) = some t := by
  induction es generalizing s with
  | nil =>
      cases h
      exact h'
  | cons e es ih =>
      simp only [execWhen] at h
      split at h
      · rename_i hB
        obtain ⟨u, hstep, hrest⟩ := Option.bind_eq_some_iff.mp h
        exact execWhen_cons hB hstep (ih hrest)
      · cases h

theorem Runs.execWhen {B : σ → ε → Bool} {es fs : List ε} {s s' : σ}
    (h : sys.Runs (fun s e => B s e = true) es s) (he : sys.execWhen B s fs = some s') :
    sys.Runs (fun s e => B s e = true) (es ++ fs) s' := by
  induction fs generalizing es s with
  | nil =>
      simp only [StepSystem.execWhen, Option.some.injEq] at he
      subst he
      simpa using h
  | cons f fs ih =>
      simp only [StepSystem.execWhen] at he
      split at he
      · rename_i hf
        obtain ⟨t, hstep, hrest⟩ := Option.bind_eq_some_iff.mp he
        simpa using ih (h.next hf hstep) hrest
      · cases he

/-- A run that is executed and checked at its end. -/
theorem exists_runs_of_execWhen {B : σ → ε → Bool} {P : σ → Prop} [DecidablePred P] (es : List ε)
    {s : σ} (hs : sys.init s) (h : (sys.execWhen B s es).any (fun s' => P s') = true) :
    ∃ s', sys.Runs (fun s e => B s e = true) es s' ∧ P s' := by
  rw [Option.any_eq_true] at h
  obtain ⟨s', hexec, hP⟩ := h
  exact ⟨s', by simpa using (Runs.start hs).execWhen hexec, of_decide_eq_true hP⟩

theorem exists_run_of_exec {P : σ → Prop} [DecidablePred P] (es : List ε) {s : σ}
    (hs : sys.init s) (h : (sys.execWhen (fun _ _ => true) s es).any (fun s' => P s') = true) :
    ∃ s', sys.AnyRun es s' ∧ P s' := by
  obtain ⟨s', hrun, hP⟩ := exists_runs_of_execWhen es hs h
  exact ⟨s', hrun.any, hP⟩

/-! ### Simulation -/

/-- Forward simulation: where each step is matched by some steps of another system, or
by none, every run is matched by a run. -/
theorem Runs.simulate {τ φ : Type*} {abs : StepSystem τ φ} {R : σ → τ → Prop}
    (hinit : ∀ s, sys.init s → ∃ fs t, abs.AnyRun fs t ∧ R s t)
    (hstep : ∀ s e s' t, R s t → C s e → sys.step s e = some s' →
      ∃ fs t', abs.execWhen (fun _ _ => true) t fs = some t' ∧ R s' t')
    {es : List ε} {s : σ} (h : sys.Runs C es s) : ∃ fs t, abs.AnyRun fs t ∧ R s t := by
  induction h with
  | start hs => exact hinit _ hs
  | next _ hc hs ih =>
      obtain ⟨fs, t, hrun, hR⟩ := ih
      obtain ⟨gs, t', hexec, hR'⟩ := hstep _ _ _ _ hR hc hs
      have hrun' : abs.Runs (fun _ _ => true = true) fs t := hrun.mono fun _ _ _ => rfl
      exact ⟨fs ++ gs, t', (hrun'.execWhen hexec).any, hR'⟩

end StepSystem
