import K6Rs.Library.Streak
import K6Rs.Verification.Thresholds.Parse

/-! When the periodic evaluator aborts the run. Every accepted expression has a timer
of its own, the timer shows the start of the current unbroken failure, and a tick
aborts exactly when some failure has lasted for the delay of its threshold. -/

namespace K6Rs

open FloatOps

variable {F H : Type} [FloatOps F] [FloatParse F] [Histogram F H]

omit [FloatOps F] in
/-- No accepted expression contains a colon. -/
theorem colon_not_mem_of_parseCondition {expr : Str}
    (h : (parseCondition expr : Option (ThresholdCondition F)).isSome) : ':' ∉ expr := by
  obtain ⟨c, hc⟩ := Option.isSome_iff_exists.mp h
  intro hmem
  rcases (isCondition_of_parseCondition hc).mem hmem with hspace | hoperand | hop
  · exact absurd hspace (by decide)
  · exact absurd hoperand (by decide)
  · exact absurd hop (by decide)

/-! ## One timer for each accepted expression -/

/-- The key of a timer determines its metric and its expression. -/
theorem stateKey_injective {metric metric' expr expr' : Str} (h : ':' ∉ expr) (h' : ':' ∉ expr')
    (heq : stateKey metric expr = stateKey metric' expr') : metric = metric' ∧ expr = expr' := by
  have hsplit : ∀ m e : Str, stateKey m e = (m ++ [':']) ++ ':' :: e := by simp [stateKey]
  rw [hsplit, hsplit] at heq
  have hlen : (metric ++ [':']).length = (metric' ++ [':']).length := by
    have hpos := Str.rfind_append_cons ':' (metric ++ [':']) expr h
    rw [heq, Str.rfind_append_cons ':' (metric' ++ [':']) expr' h'] at hpos
    exact (Option.some.inj hpos).symm
  obtain ⟨hmetric, hexpr⟩ := List.append_inj heq hlen
  exact ⟨List.append_cancel_right hmetric, List.tail_eq_of_cons_eq hexpr⟩

/-- Whether a threshold fails on a snapshot. -/
def fails (t : Str × Threshold) (snapshot : MetricsSnapshot F H) : Bool :=
  !(evaluateOne t.1 t.2.expression snapshot).passed

/-- The start of the failure that the timer of a threshold shows. -/
def failingSince (states : KeyMap Str ThresholdState) (t : Str × Threshold) : Option ℕ :=
  (states.find? (stateKey t.1 t.2.expression)).bind ThresholdState.failingSince

theorem failingSince_tick (state : Option ThresholdState) (passed : Bool) (now : ℕ) :
    ((state.getD .default).tick passed now).failingSince =
      Streak.step (state.bind ThresholdState.failingSince) (!passed, now) := by
  cases passed with
  | true => rfl
  | false =>
      cases state with
      | none => rfl
      | some state => rfl

/-- One evaluation observes every threshold once, however often its expression is
repeated and in whatever order the thresholds come. -/
theorem failingSince_updateTimers (thresholds : List (Str × Threshold))
    (haccepted : ∀ t ∈ thresholds, ':' ∉ t.2.expression) (snapshot : MetricsSnapshot F H)
    (now : ℕ) (states : KeyMap Str ThresholdState) (t : Str × Threshold)
    (ht : ':' ∉ t.2.expression) :
    failingSince (updateTimers thresholds snapshot now states) t =
      if ∃ t' ∈ thresholds, t'.1 = t.1 ∧ t'.2.expression = t.2.expression then
        Streak.step (failingSince states t) (fails t snapshot, now)
      else failingSince states t := by
  induction thresholds generalizing states with
  | nil => simp [updateTimers]
  | cons t' thresholds ih =>
      have hrest := ih fun u hu => haccepted u (List.mem_cons_of_mem _ hu)
      rw [updateTimers, List.foldl_cons, ← updateTimers, hrest]
      cases Decidable.em (t'.1 = t.1 ∧ t'.2.expression = t.2.expression) with
      | inl hsame =>
          have hstep : failingSince
              (states.upsert (stateKey t'.1 t'.2.expression) fun state =>
                (state.getD .default).tick (evaluateOne t'.1 t'.2.expression snapshot).passed now)
              t = Streak.step (failingSince states t) (fails t snapshot, now) := by
            rw [failingSince, hsame.1, hsame.2, KeyMap.find?_upsert_self]
            exact failingSince_tick _ _ now
          rw [hstep, Streak.step_step]
          simp [hsame]
      | inr hother =>
          have hne : stateKey t.1 t.2.expression ≠ stateKey t'.1 t'.2.expression := by
            intro heq
            have hparts := stateKey_injective ht (haccepted t' (by simp)) heq
            exact hother ⟨hparts.1.symm, hparts.2.symm⟩
          rw [failingSince, KeyMap.find?_upsert_of_ne _ _ hne, ← failingSince]
          simp only [List.mem_cons, exists_eq_or_imp, hother, false_or]

/-! ## Runs of the evaluator -/

/-- One evaluation tick: the thresholds in the order in which the map is iterated
this time, the snapshot and the time. -/
structure Tick (F H : Type) where
  thresholds : KeyMap Str (List Threshold)
  snapshot : MetricsSnapshot F H
  now : ℕ

/-- The decision of a tick and the timers it leaves. -/
def Tick.run (tick : Tick F H) (states : KeyMap Str ThresholdState) :
    TickDecision × KeyMap Str ThresholdState :=
  updateStates tick.thresholds tick.snapshot states tick.now

/-- The timers after a sequence of ticks. -/
def statesAfter (ticks : List (Tick F H)) : KeyMap Str ThresholdState :=
  ticks.foldl (fun states tick => (tick.run states).2) ∅

theorem mem_allThresholds_perm {m m' : KeyMap Str (List Threshold)}
    (h : m.entries.Perm m'.entries) (t : Str × Threshold) :
    t ∈ allThresholds m ↔ t ∈ allThresholds m' := by
  simp only [allThresholds, List.mem_flatMap, h.mem_iff]

/-- The timer of a threshold after a run is the streak of its failures. -/
theorem failingSince_statesAfter (thresholds : KeyMap Str (List Threshold))
    (haccepted : ∀ t ∈ allThresholds thresholds, ':' ∉ t.2.expression)
    (ticks : List (Tick F H))
    (horder : ∀ tick ∈ ticks, tick.thresholds.entries.Perm thresholds.entries)
    (t : Str × Threshold) (ht : t ∈ allThresholds thresholds) :
    failingSince (statesAfter ticks) t =
      Streak.timer (ticks.map fun tick => (fails t tick.snapshot, tick.now)) := by
  induction ticks using List.reverseRecOn with
  | nil => rfl
  | append_singleton ticks tick ih =>
      have hlast := mem_allThresholds_perm (horder tick (by simp))
      rw [List.map_append, List.map_singleton, Streak.timer_concat,
        ← ih fun u hu => horder u (List.mem_append_left _ hu)]
      rw [statesAfter, List.foldl_append, ← statesAfter, List.foldl_cons, List.foldl_nil]
      rw [Tick.run, updateStates, failingSince_updateTimers _
        (fun u hu => haccepted u ((hlast u).mp hu)) _ _ _ _ (haccepted t ht)]
      have hmem : ∃ t' ∈ allThresholds tick.thresholds,
          t'.1 = t.1 ∧ t'.2.expression = t.2.expression := ⟨t, (hlast t).mpr ht, rfl, rfl⟩
      rw [if_pos hmem]

theorem crossedDelay_iff (states : KeyMap Str ThresholdState) (now : ℕ) (t : Str × Threshold) :
    crossedDelay states now t = true ↔
      t.2.abortOnFail = true ∧
        ∃ since, failingSince states t = some since ∧ t.2.delayAbortEval ≤ now - since := by
  rw [crossedDelay, failingSince]
  cases t.2.abortOnFail with
  | false => simp
  | true =>
      cases states.find? (stateKey t.1 t.2.expression) with
      | none => simp
      | some state => cases hsince : state.failingSince <;> simp [hsince]

/-- Phase 2 aborts when any threshold has been failing for its delay. -/
theorem foldl_crossedDelay (states : KeyMap Str ThresholdState) (now : ℕ)
    (thresholds : List (Str × Threshold)) (abort : Bool) :
    thresholds.foldl (fun abort t => if crossedDelay states now t then true else abort) abort =
      (abort || thresholds.any (crossedDelay states now)) := by
  induction thresholds generalizing abort with
  | nil => simp
  | cons t thresholds ih =>
      rw [List.foldl_cons, ih, List.any_cons]
      cases crossedDelay states now t <;> simp

theorem run_fst_eq_abort_iff (tick : Tick F H) (states : KeyMap Str ThresholdState) :
    (tick.run states).1 = .abort ↔
      ∃ t ∈ allThresholds tick.thresholds, crossedDelay (tick.run states).2 tick.now t = true := by
  simp only [Tick.run, updateStates, foldl_crossedDelay, Bool.false_or, ← List.any_eq_true]
  split <;> simp_all

/-- A split of the mapped observations is a split of the ticks. -/
private theorem exists_split_map {α β : Type} (f : α → β) (l : List α) (p : β → List β → Prop) :
    (∃ before first run, l.map f = before ++ first :: run ∧ p first run) ↔
      ∃ before first run, l = before ++ first :: run ∧ p (f first) (run.map f) := by
  constructor
  · rintro ⟨before, first, run, heq, hp⟩
    obtain ⟨before', rest, rfl, -, hrest⟩ := List.map_eq_append_iff.mp heq
    obtain ⟨first', run', rfl, rfl, rfl⟩ := List.map_eq_cons_iff.mp hrest
    exact ⟨before', first', run', rfl, hp⟩
  · rintro ⟨before, first, run, rfl, hp⟩
    exact ⟨before.map f, f first, run.map f, by simp, hp⟩

/-- A tick aborts exactly when some abort-on-fail threshold failed at every tick of an
unbroken run of ticks that ends here and started at least its delay ago. -/
theorem updateStates_eq_abort_iff (thresholds : KeyMap Str (List Threshold))
    (haccepted : ∀ t ∈ allThresholds thresholds,
      (parseCondition t.2.expression : Option (ThresholdCondition F)).isSome)
    (past : List (Tick F H)) (cur : Tick F H)
    (horder : ∀ tick ∈ past ++ [cur], tick.thresholds.entries.Perm thresholds.entries)
    (htime : (past ++ [cur]).Pairwise fun a b => a.now ≤ b.now) :
    (updateStates cur.thresholds cur.snapshot (statesAfter past) cur.now).1 = .abort ↔
      ∃ t ∈ allThresholds thresholds, t.2.abortOnFail = true ∧
        ∃ before first run, past ++ [cur] = before ++ first :: run ∧
          (∀ tick ∈ first :: run,
            (evaluateOne t.1 t.2.expression tick.snapshot).passed = false) ∧
          first.now + t.2.delayAbortEval ≤ cur.now := by
  have hcolon : ∀ t ∈ allThresholds thresholds, ':' ∉ t.2.expression :=
    fun t ht => colon_not_mem_of_parseCondition (haccepted t ht)
  have hstates : (cur.run (statesAfter past)).2 = statesAfter (past ++ [cur]) := by
    simp [statesAfter]
  have hle : ∀ tick ∈ past ++ [cur], tick.now ≤ cur.now := by
    intro tick htick
    rcases List.mem_append.mp htick with h | h
    · exact (List.pairwise_append.mp htime).2.2 tick h cur (by simp)
    · rw [List.mem_singleton.mp h]
  change (cur.run (statesAfter past)).1 = .abort ↔ _
  rw [run_fst_eq_abort_iff, hstates]
  simp only [mem_allThresholds_perm (horder cur (by simp))]
  apply exists_congr
  intro t
  apply and_congr_right
  intro ht
  rw [crossedDelay_iff, failingSince_statesAfter thresholds hcolon _ horder t ht]
  apply and_congr_right
  intro _
  rw [Streak.exists_timer_iff (fun since => t.2.delayAbortEval ≤ cur.now - since)
    (fun since since' h hdelay => by omega) _ (List.pairwise_map.mpr htime)]
  rw [exists_split_map]
  -- what is left relates one split of the ticks to the same split
  refine exists_congr fun before => exists_congr fun first => exists_congr fun run => ?_
  apply and_congr_right
  intro heq
  have hfirst := hle first (by simp [heq])
  have hdelay : t.2.delayAbortEval ≤ cur.now - first.now ↔
      first.now + t.2.delayAbortEval ≤ cur.now := by omega
  simp [hdelay, fails]

section Example

/-- Two thresholds with one expression and different delays. -/
def errorThresholds : KeyMap Str (List Threshold) :=
  ⟨[("errors".toList, [⟨"count<5".toList, true, 10⟩, ⟨"count<5".toList, true, 30⟩])], by simp⟩

def errorSnapshot : MetricsSnapshot ℚ (List ℕ) := ⟨[("errors".toList, 7, 7)], [], [], [], ∅⟩

def errorTick (now : ℕ) : Tick ℚ (List ℕ) := ⟨errorThresholds, errorSnapshot, now⟩

theorem updateStates_aborts_after_delay :
    (updateStates errorThresholds errorSnapshot (statesAfter [errorTick 0]) 10).1 = .abort := by
  have hfail : ∀ tick ∈ [errorTick 0, errorTick 10],
      (evaluateOne "errors".toList "count<5".toList tick.snapshot).passed = false := by
    have hsnapshot :
        (evaluateOne "errors".toList "count<5".toList errorSnapshot).passed = false := by
      decide +kernel
    intro tick htick
    rcases List.mem_cons.mp htick with rfl | htick
    · exact hsnapshot
    · rw [List.mem_singleton.mp htick]
      exact hsnapshot
  refine (updateStates_eq_abort_iff errorThresholds ?_ [errorTick 0] (errorTick 10) ?_ ?_).mpr ?_
  · decide
  · simp [errorTick]
  · simp [errorTick]
  · exact ⟨("errors".toList, ⟨"count<5".toList, true, 10⟩), by decide, rfl, [], errorTick 0,
      [errorTick 10], rfl, hfail, by decide⟩

end Example

end K6Rs
