import Mathlib.Data.Multiset.AddSub
import Mathlib.Logic.Hydra

/-! Queues of work, where an element that is taken from the front may put further ones at the back.
When each is below the element that put it there, in a well-founded relation, the queue runs
empty. -/

namespace WorkQueue

variable {α : Type*} {r : α → α → Prop}

/-- What holds of the empty queue, and of a queue when it holds of all that its first element can
turn it into, holds of every queue. -/
theorem induction (hwf : WellFounded r) {P : List α → Prop} (hnil : P [])
    (hcons : ∀ a rest, (∀ new, (∀ b ∈ new, r b a) → P (rest ++ new)) → P (a :: rest))
      (queue : List α) :
    P queue := by
  generalize hs : (queue : Multiset α) = s
  induction s using hwf.cutExpand.induction generalizing queue with
  | _ s ih =>
      subst hs
      cases queue with
      | nil => exact hnil
      | cons a rest =>
          apply hcons
          intro new hnew
          refine ih _ ⟨new, a, hnew, ?_⟩ _ rfl
          rw [← Multiset.coe_add, ← Multiset.cons_coe, ← Multiset.singleton_add]
          ac_rfl

end WorkQueue
