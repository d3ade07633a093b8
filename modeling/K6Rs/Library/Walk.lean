import Mathlib.Data.Fintype.Card
import Mathlib.Data.List.TakeDrop

/-! Walks along labelled edges that each lead to a node and a state to go on from. When no two walks
lead to the same node, no walk is longer than the number of nodes. -/

/-- A walk of at least one edge, by its labels. -/
inductive Walk {σ ε ι : Type*} (edge : σ → ε → ι → σ → Prop) : σ → List ε → ι → σ → Prop where
  | single {s e i s'} (h : edge s e i s') : Walk edge s [e] i s'
  | cons {s e i s' es j s''} (h : edge s e i s') (rest : Walk edge s' es j s'') :
      Walk edge s (e :: es) j s''

namespace Walk

variable {σ ε ι : Type*} {edge : σ → ε → ι → σ → Prop} {s s' : σ} {es : List ε} {i : ι}

theorem ne_nil (h : Walk edge s es i s') : es ≠ [] := by
  cases h with
  | single _ => exact List.cons_ne_nil _ _
  | cons _ _ => exact List.cons_ne_nil _ _

/-- Every nonempty part of a walk from its start is a walk. -/
theorem exists_take (h : Walk edge s es i s') {n : ℕ} (hn : n < es.length) :
    ∃ j s'', Walk edge s (es.take (n + 1)) j s'' := by
  induction h generalizing n with
  | single h => exact ⟨_, _, by simpa using .single h⟩
  | cons h rest ih =>
      cases n with
      | zero => exact ⟨_, _, by simpa using .single h⟩
      | succ n =>
          obtain ⟨j, s'', hwalk⟩ := ih (Nat.lt_of_succ_lt_succ hn)
          exact ⟨j, s'', .cons h hwalk⟩

/-- No two walks from a state lead to the same node. -/
def Unique (edge : σ → ε → ι → σ → Prop) (s : σ) : Prop :=
  ∀ ⦃es es' i s' s''⦄, Walk edge s es i s' → Walk edge s es' i s'' → es = es'

/-- The parts of a walk lead to different nodes. -/
theorem Unique.length_le [Fintype ι] (hunique : Unique edge s) (h : Walk edge s es i s') :
    es.length ≤ Fintype.card ι := by
  have hpart (n : Fin es.length) : ∃ j s'', Walk edge s (es.take (n + 1)) j s'' := h.exists_take n.2
  choose node last hwalk using hpart
  have hinj : Function.Injective node := by
    intro m n hmn
    have htake := hunique (hwalk m) (hmn ▸ hwalk n)
    have hlength := congrArg List.length htake
    rw [List.length_take, List.length_take] at hlength
    apply Fin.ext
    omega
  calc es.length = Fintype.card (Fin es.length) := (Fintype.card_fin _).symm
    _ ≤ Fintype.card ι := Fintype.card_le_of_injective node hinj

end Walk
