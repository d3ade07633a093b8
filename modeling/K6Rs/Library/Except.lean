import Mathlib.Data.List.Basic
import Mathlib.Data.List.Forall2

/-! The successful runs of a fallible computation: what holds of the result, from what holds of each
of its steps. -/

namespace Except

variable {ε α β σ : Type}

theorem ok_bind (a : α) (f : α → Except ε β) : (.ok a >>= f) = f a := rfl

theorem bind_of_eq_ok {x : Except ε α} {a : α} (h : x = .ok a) (f : α → Except ε β) :
    x >>= f = f a := by
  rw [h, ok_bind]

theorem error_bind (e : ε) (f : α → Except ε β) : (.error e >>= f) = .error e := rfl

theorem bind_eq_ok_iff {x : Except ε α} {f : α → Except ε β} {b : β} :
    x >>= f = .ok b ↔ ∃ a, x = .ok a ∧ f a = .ok b := by
  cases x with
  | error e => simp [bind, Except.bind]
  | ok a => simp [bind, Except.bind]

theorem toOption_eq_some_iff {x : Except ε α} {a : α} : x.toOption = some a ↔ x = .ok a := by
  cases x with
  | error e => simp [Except.toOption]
  | ok b => simp [Except.toOption]

theorem mapM_eq_ok_iff {f : α → Except ε β} {l : List α} {bs : List β} :
    l.mapM f = .ok bs ↔ List.Forall₂ (fun a b => f a = .ok b) l bs := by
  induction l generalizing bs with
  | nil =>
      rw [List.forall₂_nil_left_iff]
      exact ⟨fun h => by cases h; rfl, fun h => by rw [h]; rfl⟩
  | cons a l ih =>
      rw [List.mapM_cons, bind_eq_ok_iff, List.forall₂_cons_left_iff]
      simp only [bind_eq_ok_iff, ih]
      constructor
      · rintro ⟨b, hb, cs, hcs, h⟩
        cases h
        exact ⟨b, cs, hb, hcs, rfl⟩
      · rintro ⟨b, cs, hb, hcs, rfl⟩
        exact ⟨b, hb, cs, hcs, rfl⟩

/-- The error is that of an element. -/
theorem exists_of_mapM_eq_error {f : α → Except ε β} {l : List α} {e : ε}
    (h : l.mapM f = .error e) :
    ∃ a ∈ l, f a = .error e := by
  induction l with
  | nil => nomatch h
  | cons a l ih =>
      rw [List.mapM_cons] at h
      cases ha : f a with
      | error e' =>
          rw [ha, error_bind] at h
          exact ⟨a, List.mem_cons_self, by rw [ha, error.inj h]⟩
      | ok b =>
          cases hl : l.mapM f with
          | error e' =>
              rw [ha, hl, ok_bind, error_bind] at h
              obtain ⟨a', hmem, ha'⟩ := ih (by rw [hl, error.inj h])
              exact ⟨a', List.mem_cons_of_mem a hmem, ha'⟩
          | ok bs =>
              rw [ha, hl] at h
              nomatch h

/-- What each element is mapped to has the property, and so has each element of the result. -/
theorem forall_mem_of_mapM {P : β → Prop} {f : α → Except ε β} {l : List α} {bs : List β}
    (hf : ∀ a b, f a = .ok b → P b) (h : l.mapM f = .ok bs) : ∀ b ∈ bs, P b := by
  induction l generalizing bs with
  | nil =>
      cases h
      simp
  | cons a l ih =>
      rw [List.mapM_cons] at h
      obtain ⟨b, hb, h⟩ := bind_eq_ok_iff.mp h
      obtain ⟨cs, hcs, h⟩ := bind_eq_ok_iff.mp h
      cases h
      rw [List.forall_mem_cons]
      exact ⟨hf a b hb, ih hcs⟩

/-- An invariant of the step of a fold holds of its result. -/
theorem foldlM_invariant {P : σ → Prop} {f : σ → α → Except ε σ} {l : List α} {s t : σ}
    (hf : ∀ s a t, P s → f s a = .ok t → P t) (hs : P s) (h : l.foldlM f s = .ok t) : P t := by
  induction l generalizing s with
  | nil =>
      cases h
      exact hs
  | cons a l ih =>
      rw [List.foldlM_cons] at h
      obtain ⟨s', hs', h⟩ := bind_eq_ok_iff.mp h
      exact ih (hf s a s' hs hs') h

end Except

namespace List

theorem exists_mem_of_forall₂ {α β : Type*} {R : α → β → Prop} {l : List α} {m : List β}
    (h : List.Forall₂ R l m) {a : α} (ha : a ∈ l) : ∃ b ∈ m, R a b := by
  induction h with
  | nil => cases ha
  | @cons a' b l m hab _ ih =>
      rcases List.mem_cons.mp ha with rfl | ha
      · exact ⟨b, List.mem_cons_self, hab⟩
      · obtain ⟨c, hc, hac⟩ := ih ha
        exact ⟨c, List.mem_cons_of_mem b hc, hac⟩

end List
