import Mathlib.Data.List.Basic

/-! Escaping with one character before each special one. A text with delimiters is split at those
that no escape comes before. -/

namespace Escape

variable {α : Type*} [DecidableEq α]

/-- Every `c` is replaced by `t`. -/
def replace (c : α) (t s : List α) : List α := s.flatMap fun a => if a = c then t else [a]

def escape (e : α) (special s : List α) : List α :=
  s.flatMap fun a => if a ∈ special then [e, a] else [a]

/-- An escape before a special character is taken away. -/
def unescape (e : α) (special : List α) : List α → List α
  | [] => []
  | [a] => [a]
  | a :: b :: s =>
      if a = e ∧ b ∈ special then b :: unescape e special s else a :: unescape e special (b :: s)

/-- The parts begin with `t`. -/
def attach (t : List α) : List (List α) → List (List α)
  | [] => [t]
  | part :: parts => (t ++ part) :: parts

/-- The parts between the free delimiters `d`. -/
def splitFree (e d : α) : List α → List (List α)
  | [] => [[]]
  | [a] => if a ≠ e ∧ a = d then [[], []] else [[a]]
  | a :: b :: s =>
      if a = e then attach [a, b] (splitFree e d s)
      else if a = d then [] :: splitFree e d (b :: s)
      else attach [a] (splitFree e d (b :: s))

variable {e d a : α} {special s t : List α}

/-! ## Replacements -/

theorem escape_cons : escape e special (a :: s) =
    (if a ∈ special then [e, a] else [a]) ++ escape e special s :=
  List.flatMap_cons

theorem replace_append (c : α) (t s s' : List α) :
    replace c t (s ++ s') = replace c t s ++ replace c t s' :=
  List.flatMap_append

theorem replace_eq_escape (s : List α) : replace e [e, e] s = escape e [e] s := by
  induction s with
  | nil => rfl
  | cons a s ih =>
      rw [escape_cons, ← ih, replace, List.flatMap_cons, ← replace]
      by_cases h : a = e
      · subst h
        simp
      · simp [h]

/-- One more character is escaped by a replacement after those of the others. -/
theorem replace_escape {c : α} (hc : c ≠ e) (hspecial : c ∉ special) (s : List α) :
    replace c [e, c] (escape e special s) = escape e (c :: special) s := by
  induction s with
  | nil => rfl
  | cons a s ih =>
      rw [escape_cons, escape_cons, replace_append, ih]
      congr 1
      by_cases hmem : a ∈ special
      · have hne : a ≠ c := ne_of_mem_of_not_mem hmem hspecial
        simp [replace, hmem, hne, hc.symm]
      · by_cases hac : a = c
        · subst hac
          simp [replace, hmem]
        · simp [replace, hmem, hac]

theorem mem_escape_iff {c : α} (hc : c ≠ e) : c ∈ escape e special s ↔ c ∈ s := by
  induction s with
  | nil => exact Iff.rfl
  | cons a s ih =>
      rw [escape_cons, List.mem_append, ih, List.mem_cons]
      by_cases hmem : a ∈ special <;> simp [hmem, hc]

/-! ## Undoing escapes -/

theorem unescape_cons (h : a ≠ e) (s : List α) :
    unescape e special (a :: s) = a :: unescape e special s := by
  cases s with
  | nil => rfl
  | cons b s => rw [unescape, if_neg fun hand => h hand.1]

/-- A reader that undoes more escapes still reads the text. -/
theorem unescape_escape {undone : List α} (he : e ∈ special) (hsub : special ⊆ undone)
    (s : List α) :
    unescape e undone (escape e special s) = s := by
  induction s with
  | nil => rfl
  | cons a s ih =>
      rw [escape_cons]
      by_cases hmem : a ∈ special
      · rw [if_pos hmem, List.cons_append, List.singleton_append, unescape,
          if_pos ⟨rfl, hsub hmem⟩, ih]
      · have hne : a ≠ e := fun h => hmem (h ▸ he)
        rw [if_neg hmem, List.singleton_append, unescape_cons hne, ih]

/-! ## Splitting -/

theorem splitFree_ne_nil (e d : α) (s : List α) : splitFree e d s ≠ [] := by
  have hattach (t : List α) (parts : List (List α)) : attach t parts ≠ [] := by
    cases parts <;> simp [attach]
  unfold splitFree
  split
  · simp
  · split <;> simp
  · split
    · exact hattach _ _
    split
    · simp
    · exact hattach _ _

omit [DecidableEq α] in
theorem intercalate_cons (c : α) (part : List α) (parts : List (List α)) :
    [c].intercalate (part :: parts) = part ++ parts.flatMap (c :: ·) := by
  induction parts generalizing part with
  | nil => simp
  | cons next parts ih => simp [List.intercalate_cons_cons, ih]

omit [DecidableEq α] in
theorem mem_intercalate_iff {c : α} (h : a ≠ c) {parts : List (List α)} :
    a ∈ [c].intercalate parts ↔ ∃ part ∈ parts, a ∈ part := by
  cases parts with
  | nil => simp
  | cons part parts => simp [intercalate_cons, h]

omit [DecidableEq α] in
theorem attach_nil {parts : List (List α)} (h : parts ≠ []) : attach [] parts = parts := by
  cases parts with
  | nil => exact absurd rfl h
  | cons part parts => rfl

omit [DecidableEq α] in
theorem attach_append (t t' : List α) (parts : List (List α)) :
    attach (t ++ t') parts = attach t (attach t' parts) := by
  cases parts with
  | nil => rfl
  | cons part parts => simp [attach]

/-- No free delimiter, and no escape at the end. -/
def Closed (e d : α) (t : List α) : Prop :=
  ∀ rest, splitFree e d (t ++ rest) = attach t (splitFree e d rest)

theorem closed_nil : Closed e d [] := fun rest => (attach_nil (splitFree_ne_nil e d rest)).symm

theorem Closed.append (hs : Closed e d s) (ht : Closed e d t) : Closed e d (s ++ t) := by
  intro rest
  rw [List.append_assoc, hs, ht, attach_append]

theorem closed_pair (e d a : α) : Closed e d [e, a] := by
  intro rest
  rw [List.cons_append, List.singleton_append, splitFree, if_pos rfl]

theorem closed_singleton (he : a ≠ e) (hd : a ≠ d) : Closed e d [a] := by
  intro rest
  cases rest with
  | nil => simp [splitFree, attach, hd]
  | cons b rest => rw [List.singleton_append, splitFree, if_neg he, if_neg hd]

theorem closed_of_plain (h : ∀ a ∈ t, a ≠ e ∧ a ≠ d) : Closed e d t := by
  induction t with
  | nil => exact closed_nil
  | cons a t ih =>
      rw [List.forall_mem_cons] at h
      exact (closed_singleton h.1.1 h.1.2).append (ih h.2)

theorem closed_escape (he : e ∈ special) (hd : d ∈ special) (s : List α) :
    Closed e d (escape e special s) := by
  induction s with
  | nil => exact closed_nil
  | cons a s ih =>
      rw [escape_cons]
      refine Closed.append ?_ ih
      split
      · exact closed_pair e d a
      · rename_i hmem
        exact closed_singleton (fun h => hmem (h ▸ he)) fun h => hmem (h ▸ hd)

theorem Closed.intercalate {c : α} (hc : Closed e d [c]) {parts : List (List α)}
    (h : ∀ part ∈ parts, Closed e d part) :
    Closed e d ([c].intercalate parts) := by
  induction parts with
  | nil => exact closed_nil
  | cons part parts ih =>
      rw [List.forall_mem_cons] at h
      cases parts with
      | nil => simpa using h.1
      | cons next parts =>
          rw [List.intercalate_cons_cons]
          exact (h.1.append hc).append (ih h.2)

theorem splitFree_self (h : Closed e d t) : splitFree e d t = [t] := by
  have hend := h []
  rw [List.append_nil] at hend
  rw [hend]
  simp [splitFree, attach]

theorem splitFree_append_cons (hde : d ≠ e) (h : Closed e d t) (rest : List α) :
    splitFree e d (t ++ d :: rest) = t :: splitFree e d rest := by
  rw [h]
  cases rest with
  | nil => simp [splitFree, hde, attach]
  | cons b rest =>
      rw [splitFree, if_neg hde, if_pos rfl]
      simp [attach]

/-- A text joined from closed parts is split into them. -/
theorem splitFree_intercalate (hde : d ≠ e) {parts : List (List α)} (hne : parts ≠ [])
    (h : ∀ part ∈ parts, Closed e d part) : splitFree e d ([d].intercalate parts) = parts := by
  induction parts with
  | nil => exact absurd rfl hne
  | cons part parts ih =>
      rw [List.forall_mem_cons] at h
      cases parts with
      | nil => simpa using splitFree_self h.1
      | cons next parts =>
          rw [List.intercalate_cons_cons, List.append_assoc, List.singleton_append,
            splitFree_append_cons hde h.1, ih (List.cons_ne_nil _ _) h.2]

end Escape
