import Mathlib.Data.List.DropRight
import Mathlib.Data.List.Basic

/-! Lists without the elements at their two ends that satisfy a predicate. -/

namespace Trim

variable {α : Type*} {p : α → Bool}

/-- The list without its first elements that satisfy `p`. -/
def trimStart (p : α → Bool) (s : List α) : List α := s.dropWhile p

/-- The list without its last elements that satisfy `p`. -/
def trimEnd (p : α → Bool) (s : List α) : List α := s.rdropWhile p

/-- The list without its first and last elements that satisfy `p`. -/
def trim (p : α → Bool) (s : List α) : List α := trimEnd p (trimStart p s)

theorem trimStart_eq_nil_iff (s : List α) : trimStart p s = [] ↔ ∀ c ∈ s, p c := by
  simp [trimStart, List.dropWhile_eq_nil_iff]

theorem trim_eq_nil_iff (s : List α) : trim p s = [] ↔ ∀ c ∈ s, p c := by
  rw [trim, trimEnd, List.rdropWhile_eq_nil_iff]
  constructor
  · intro h
    rw [← trimStart_eq_nil_iff]
    by_contra hne
    have hhead := List.head_dropWhile_not p hne
    have hall := h _ (List.head_mem hne)
    exact Bool.false_ne_true (hhead.symm.trans hall)
  · intro h c hc
    exact h c ((List.dropWhile_sublist _).subset hc)

/-- The front alone is trimmed when the last element stays. -/
theorem trim_append_singleton (s : List α) (c : α) (hc : p c = false) :
    trim p (s ++ [c]) = trimStart p (s ++ [c]) := by
  have hstart : ∃ u, trimStart p (s ++ [c]) = u ++ [c] := by
    rw [trimStart, List.dropWhile_append]
    split
    · exact ⟨[], by simp [hc]⟩
    · exact ⟨_, rfl⟩
  obtain ⟨u, hu⟩ := hstart
  rw [trim, hu, trimEnd, List.rdropWhile_concat_neg _ _ _ (by simp [hc])]

theorem trimStart_append (s t : List α) (h : ¬∀ c ∈ s, p c) :
    trimStart p (s ++ t) = trimStart p s ++ t := by
  rw [trimStart, List.dropWhile_append, if_neg]
  · rfl
  · rw [List.isEmpty_iff]
    exact fun hnil => h ((trimStart_eq_nil_iff s).mp hnil)

theorem trimStart_trim (s : List α) : trimStart p (trim p s) = trim p s := by
  rw [trimStart, List.dropWhile_eq_self_iff]
  intro hl
  have hpre : trim p s <+: trimStart p s := List.rdropWhile_prefix _ _
  obtain ⟨t, ht⟩ := hpre
  have hne : trim p s ≠ [] := List.ne_nil_of_length_pos hl
  have hne' : trimStart p s ≠ [] := by
    intro hnil
    rw [hnil] at ht
    exact hne (List.append_eq_nil_iff.mp ht).1
  have hhead := List.head_dropWhile_not p hne'
  have heq : (trim p s)[0] = (trimStart p s).head hne' := by
    rw [List.head_eq_getElem]
    simp only [← ht, List.getElem_append_left hl]
  rw [heq]
  simpa [trimStart] using hhead

@[simp] theorem trim_trim (s : List α) : trim p (trim p s) = trim p s := by
  conv_lhs => rw [trim, trimStart_trim]
  exact List.rdropWhile_idempotent p (trimStart p s)

theorem trim_sublist (s : List α) : (trim p s).Sublist s :=
  (List.rdropWhile_prefix _ _).sublist.trans (List.dropWhile_sublist _)

theorem mem_of_mem_trim {s : List α} {c : α} (h : c ∈ trim p s) : c ∈ s :=
  (trim_sublist s).subset h

theorem mem_trim_of_mem {s : List α} {c : α} (h : c ∈ s) (hc : p c = false) :
    c ∈ trim p s := by
  have hstart : c ∈ trimStart p s := by
    rw [← @List.takeWhile_append_dropWhile _ p s, List.mem_append] at h
    apply h.resolve_left
    intro ht
    have hw := List.all_eq_true.mp (@List.all_takeWhile _ p s) c ht
    exact Bool.false_ne_true (hc.symm.trans hw)
  rw [← @List.rdropWhile_append_rtakeWhile _ p (trimStart p s), List.mem_append] at hstart
  apply hstart.resolve_right
  intro ht
  exact Bool.false_ne_true (hc.symm.trans (List.mem_rtakeWhile_imp ht))

theorem trim_append_of_trimmed_off (s t : List α) (ht : ∀ c ∈ t, p c) :
    trim p (s ++ t) = trim p s := by
  cases Decidable.em (∀ c ∈ s, p c) with
  | inl hs =>
      rw [(trim_eq_nil_iff s).mpr hs, trim_eq_nil_iff]
      intro c hc
      rcases List.mem_append.mp hc with h | h
      · exact hs c h
      · exact ht c h
  | inr hs =>
      rw [trim, trimStart_append s t hs, trimEnd, List.rdropWhile, List.reverse_append,
        List.dropWhile_append_of_pos (by simpa using ht)]
      rfl

theorem trim_trimmed_off_append (s t : List α) (hs : ∀ c ∈ s, p c) :
    trim p (s ++ t) = trim p t := by
  rw [trim, trimStart, List.dropWhile_append_of_pos hs]
  rfl

/-- What is trimmed off stands at the two ends. -/
theorem exists_append_trim (s : List α) : ∃ front back, s = front ++ trim p s ++ back ∧
    (∀ c ∈ front, p c) ∧ ∀ c ∈ back, p c := by
  refine ⟨s.takeWhile p, (trimStart p s).rtakeWhile p, ?_, ?_, ?_⟩
  · rw [List.append_assoc, trim, trimEnd, List.rdropWhile_append_rtakeWhile]
    exact (List.takeWhile_append_dropWhile).symm
  · intro c hc
    exact List.mem_takeWhile_imp hc
  · intro c hc
    exact List.mem_rtakeWhile_imp hc

/-- A trimmed list does not end in what is trimmed off. -/
theorem eq_nil_of_trim_append {s t : List α} (h : trim p (s ++ t) = s ++ t)
    (ht : ∀ c ∈ t, p c) : t = [] := by
  rw [trim_append_of_trimmed_off s t ht] at h
  have hsublist : (trim p s).Sublist s := trim_sublist s
  have hlen := hsublist.length_le
  rw [h, List.length_append] at hlen
  exact List.length_eq_zero_iff.mp (by omega)

/-- The end of a list does not show in its trimmed beginning. -/
theorem trim_takeWhile_trimStart (q : α → Bool) (s : List α) :
    trim p ((trimStart p s).takeWhile q) = trim p ((trim p s).takeWhile q) := by
  have hend : trimStart p s = trim p s ++ (trimStart p s).rtakeWhile p :=
    List.rdropWhile_append_rtakeWhile.symm
  rw [hend, List.takeWhile_append]
  split
  · rename_i hlen
    rw [(List.takeWhile_prefix q).eq_of_length hlen]
    apply trim_append_of_trimmed_off
    intro c hc
    exact List.mem_rtakeWhile_imp ((List.takeWhile_sublist q).subset hc)
  · rfl

/-- A list is trimmed when its first and last elements stay. -/
theorem trim_eq_self {s : List α} (hhead : ∀ c ∈ s.head?, p c = false)
    (hlast : ∀ c ∈ s.getLast?, p c = false) :
    trim p s = s := by
  have hstart : trimStart p s = s := by
    cases s with
    | nil => rfl
    | cons c s => exact List.dropWhile_cons_of_neg (by simp [hhead c rfl])
  rw [trim, hstart, trimEnd, List.rdropWhile_eq_self_iff]
  intro hne
  rw [hlast _ (List.getLast?_eq_some_getLast hne)]
  exact Bool.false_ne_true

theorem trimStart_of_trim_eq_self {s : List α} (h : trim p s = s) : trimStart p s = s := by
  rw [← h, trimStart_trim]

theorem trimEnd_of_trim_eq_self {s : List α} (h : trim p s = s) : trimEnd p s = s := by
  rwa [trim, trimStart_of_trim_eq_self h] at h

theorem head_of_trim_eq_self {c : α} {s : List α} (h : trim p (c :: s) = c :: s) : p c = false := by
  have hhead := List.dropWhile_eq_self_iff.mp (trimStart_of_trim_eq_self h) (by simp)
  simpa using hhead

theorem last_of_trim_eq_self {c : α} {s : List α} (h : trim p (s ++ [c]) = s ++ [c]) :
    p c = false := by
  have hlast := List.rdropWhile_eq_self_iff.mp (trimEnd_of_trim_eq_self h) (by simp)
  simpa using hlast

/-- Two trimmed lists are trimmed when joined. -/
theorem trim_append_of_trimmed {s t : List α} (hs : trim p s = s) (hs0 : s ≠ []) (ht : trim p t = t)
    (ht0 : t ≠ []) : trim p (s ++ t) = s ++ t := by
  have hstart : trimStart p (s ++ t) = s ++ t := by
    have hall : ¬∀ c ∈ s, p c := by
      intro hall
      exact hs0 (hs.symm.trans ((trim_eq_nil_iff s).mpr hall))
    rw [trimStart_append s t hall, trimStart_of_trim_eq_self hs]
  have hlast : p (t.getLast ht0) = false := by
    simpa using List.rdropWhile_eq_self_iff.mp (trimEnd_of_trim_eq_self ht) ht0
  rw [trim, hstart, trimEnd, List.rdropWhile_eq_self_iff]
  intro hne
  rw [List.getLast_append_of_right_ne_nil _ _ ht0, hlast]
  exact Bool.false_ne_true

end Trim
