import Mathlib.Data.List.Basic
import Mathlib.Data.List.Induction
import Mathlib.Order.Basic

/-! A timer that starts at the first of several consecutive bad observations and is
cleared by a good one. It shows the start of the longest unbroken run of bad
observations that reaches the present. -/

namespace Streak

variable {T : Type*}

/-- One observation: whether it is bad, and its time. -/
def step (timer : Option T) (o : Bool × T) : Option T :=
  if o.1 then some (timer.getD o.2) else none

def timer (l : List (Bool × T)) : Option T := l.foldl step none

@[simp] theorem timer_nil : timer ([] : List (Bool × T)) = none := rfl

theorem timer_concat (l : List (Bool × T)) (o : Bool × T) :
    timer (l ++ [o]) = step (timer l) o := by
  simp [timer]

/-- Observing the same once more changes nothing. -/
theorem step_step (timer : Option T) (o : Bool × T) : step (step timer o) o = step timer o := by
  unfold step
  split <;> simp

theorem timer_mem {l : List (Bool × T)} {t : T} (h : timer l = some t) :
    ∃ o ∈ l, o.2 = t := by
  induction l using List.reverseRecOn generalizing t with
  | nil => simp at h
  | append_singleton l o ih =>
      rw [timer_concat, step] at h
      split at h
      · cases ht : timer l with
        | none => exact ⟨o, by simp, by simpa [ht] using h⟩
        | some t' =>
            obtain ⟨o', ho', rfl⟩ := ih ht
            exact ⟨o', by simp [ho'], by simpa [ht] using h⟩
      · cases h

/-- The timer meets a bound that earlier times meet more easily exactly when some
unbroken bad run that reaches the present starts within it. -/
theorem exists_timer_iff [Preorder T] (p : T → Prop) (hp : ∀ s t, s ≤ t → p t → p s)
    (l : List (Bool × T)) (hl : l.Pairwise fun a b => a.2 ≤ b.2) :
    (∃ t, timer l = some t ∧ p t) ↔
      ∃ before first run, l = before ++ first :: run ∧
        (∀ o ∈ first :: run, o.1 = true) ∧ p first.2 := by
  induction l using List.reverseRecOn with
  | nil => simp
  | append_singleton l o ih =>
      obtain ⟨hl, -, hlast⟩ := List.pairwise_append.mp hl
      rw [timer_concat, step]
      cases ho : o.1 with
      | false =>
          simp only [Bool.false_eq_true, ite_false, reduceCtorEq, false_and, exists_false,
            false_iff]
          rintro ⟨before, first, run, heq, hbad, -⟩
          have hmem : o ∈ first :: run := by
            have hlast : (l ++ [o]).getLast? = (before ++ first :: run).getLast? := by rw [heq]
            rw [List.getLast?_concat,
              List.getLast?_append_of_ne_nil _ (List.cons_ne_nil _ _)] at hlast
            exact List.mem_of_getLast? hlast.symm
          exact Bool.false_ne_true (ho.symm.trans (hbad o hmem))
      | true =>
          simp only [ite_true, Option.some.injEq, exists_eq_left']
          constructor
          · intro hpt
            cases ht : timer l with
            | none =>
                refine ⟨l, o, [], rfl, by simpa using ho, ?_⟩
                simpa [ht] using hpt
            | some t =>
                rw [ht, Option.getD_some] at hpt
                obtain ⟨before, first, run, rfl, hbad, hfirst⟩ := (ih hl).mp ⟨t, ht, hpt⟩
                refine ⟨before, first, run ++ [o], by simp, ?_, hfirst⟩
                intro o' ho'
                rcases List.mem_append.mp (by simpa using ho' : o' ∈ (first :: run) ++ [o])
                  with h | h
                · exact hbad o' h
                · rw [List.mem_singleton.mp h]
                  exact ho
          · rintro ⟨before, first, run, heq, hbad, hfirst⟩
            cases run using List.reverseRecOn with
            | nil =>
                obtain ⟨rfl, ho'⟩ := List.append_inj' heq rfl
                obtain rfl := List.singleton_inj.mp ho'
                cases ht : timer l with
                | none => simpa using hfirst
                | some t =>
                    obtain ⟨o', ho', rfl⟩ := timer_mem ht
                    exact hp _ _ (hlast o' ho' o (by simp)) hfirst
            | append_singleton run o' =>
                have heq' : l ++ [o] = (before ++ first :: run) ++ [o'] := by simpa using heq
                obtain ⟨rfl, -⟩ := List.append_inj' heq' rfl
                obtain ⟨t, ht, hpt⟩ := (ih hl).mpr ⟨before, first, run, rfl,
                  fun o'' h => hbad o'' (by
                    rcases List.mem_cons.mp h with h | h
                    · simp [h]
                    · simp [h]), hfirst⟩
                simpa [ht] using hpt

end Streak
