import Mathlib.Data.List.Basic
import Mathlib.Data.List.Nodup
import Mathlib.Data.List.Perm.Basic
import Mathlib.Algebra.BigOperators.Group.List.Basic

/-! Maps with one entry for each key. The entries stand in the order in which the
map is iterated; nothing relates that order to the keys. -/

/-- A map as the list of its entries, no two of them with the same key. -/
structure KeyMap (κ ν : Type*) where
  entries : List (κ × ν)
  nodup : (entries.map Prod.fst).Nodup

namespace KeyMap

variable {κ ν : Type*}

instance : EmptyCollection (KeyMap κ ν) := ⟨⟨[], List.nodup_nil⟩⟩

@[simp] theorem entries_empty : (∅ : KeyMap κ ν).entries = [] := rfl

section Lookup

variable [DecidableEq κ]

/-- The value stored under `k`. -/
def find? (m : KeyMap κ ν) (k : κ) : Option ν := m.entries.lookup k

/-! ## Insertion -/

/-- Replace the value `v` under `k` by `f (some v)`, or append `k` with `f none`. -/
def upsertList (k : κ) (f : Option ν → ν) : List (κ × ν) → List (κ × ν)
  | [] => [(k, f none)]
  | (k', v) :: rest =>
      if k' = k then (k', f (some v)) :: rest else (k', v) :: upsertList k f rest

theorem mem_keys_upsertList (k j : κ) (f : Option ν → ν) (l : List (κ × ν)) :
    j ∈ (upsertList k f l).map Prod.fst ↔ j = k ∨ j ∈ l.map Prod.fst := by
  induction l with
  | nil => simp [upsertList]
  | cons a l ih =>
      by_cases h : a.1 = k
      · simp only [upsertList, h, ite_true, List.map_cons, List.mem_cons]
        tauto
      · simp only [upsertList, h, ite_false, List.map_cons, List.mem_cons, ih]
        tauto

theorem nodup_upsertList (k : κ) (f : Option ν → ν) (l : List (κ × ν))
    (h : (l.map Prod.fst).Nodup) : ((upsertList k f l).map Prod.fst).Nodup := by
  induction l with
  | nil => simp [upsertList]
  | cons a l ih =>
      rw [List.map_cons, List.nodup_cons] at h
      by_cases ha : a.1 = k
      · simpa [upsertList, ha] using h
      · simp only [upsertList, ha, ite_false, List.map_cons, List.nodup_cons]
        refine ⟨?_, ih h.2⟩
        rw [mem_keys_upsertList]
        rintro (hk | hk)
        · exact ha hk
        · exact h.1 hk

/-- The map with the value under `k` updated or inserted. -/
def upsert (m : KeyMap κ ν) (k : κ) (f : Option ν → ν) : KeyMap κ ν :=
  ⟨upsertList k f m.entries, nodup_upsertList k f m.entries m.nodup⟩

theorem mem_keys_upsert (m : KeyMap κ ν) (k j : κ) (f : Option ν → ν) :
    j ∈ (m.upsert k f).entries.map Prod.fst ↔ j = k ∨ j ∈ m.entries.map Prod.fst :=
  mem_keys_upsertList k j f m.entries

theorem lookup_upsertList (k j : κ) (f : Option ν → ν) (l : List (κ × ν)) :
    (upsertList k f l).lookup j =
      if j = k then some (f (l.lookup k)) else l.lookup j := by
  induction l with
  | nil =>
      by_cases h : j = k
      · simp [upsertList, h]
      · simp [upsertList, List.lookup_cons, beq_eq_false_iff_ne.mpr h, h]
  | cons a l ih =>
      obtain ⟨i, v⟩ := a
      by_cases hi : i = k
      · subst hi
        by_cases hj : j = i
        · simp [upsertList, hj]
        · simp [upsertList, List.lookup_cons, beq_eq_false_iff_ne.mpr hj, hj]
      · by_cases hj : j = i
        · subst hj
          simp [upsertList, hi]
        · simp only [upsertList, hi, ite_false, List.lookup_cons, beq_eq_false_iff_ne.mpr hj, ih]
          simp [beq_eq_false_iff_ne.mpr (Ne.symm hi)]

@[simp] theorem find?_upsert_self (m : KeyMap κ ν) (k : κ) (f : Option ν → ν) :
    (m.upsert k f).find? k = some (f (m.find? k)) := by
  simp [find?, upsert, lookup_upsertList]

theorem find?_upsert_of_ne (m : KeyMap κ ν) {k j : κ} (f : Option ν → ν) (h : j ≠ k) :
    (m.upsert k f).find? j = m.find? j := by
  simp [find?, upsert, lookup_upsertList, h]

/-! ## Entries and lookups -/

/-- What holds of every entry and of the new value holds after an update. -/
theorem forall_upsert {P : κ → ν → Prop} {m : KeyMap κ ν} (h : ∀ k v, m.find? k = some v → P k v)
    {k : κ}
    {f : Option ν → ν} (hf : P k (f (m.find? k))) : ∀ j v,
    (m.upsert k f).find? j = some v → P j v := by
  intro j v hfind
  by_cases hj : j = k
  · subst hj
    rw [find?_upsert_self, Option.some_inj] at hfind
    exact hfind ▸ hf
  · rw [find?_upsert_of_ne m f hj] at hfind
    exact h j v hfind

theorem find?_eq_some_iff (m : KeyMap κ ν) (k : κ) (v : ν) :
    m.find? k = some v ↔ (k, v) ∈ m.entries := by
  obtain ⟨l, hl⟩ := m
  simp only [find?]
  induction l with
  | nil => simp
  | cons a l ih =>
      obtain ⟨j, w⟩ := a
      rw [List.map_cons, List.nodup_cons] at hl
      by_cases h : k = j
      · subst h
        simp only [List.lookup_cons_self, Option.some.injEq, List.mem_cons, Prod.mk.injEq,
          true_and]
        refine ⟨fun hw => .inl hw.symm, ?_⟩
        rintro (hw | hmem)
        · exact hw.symm
        · exact (hl.1 (List.mem_map.mpr ⟨(k, v), hmem, rfl⟩)).elim
      · simp [List.lookup_cons, beq_eq_false_iff_ne.mpr h, ih hl.2, h]

theorem find?_eq_none_iff (m : KeyMap κ ν) (k : κ) :
    m.find? k = none ↔ k ∉ m.entries.map Prod.fst := by
  rw [Option.eq_none_iff_forall_not_mem]
  simp only [Option.mem_def, find?_eq_some_iff, List.mem_map, not_exists, not_and]
  refine ⟨fun h a ha hk => h a.2 (hk ▸ ha), fun h v hv => h (k, v) hv rfl⟩

/-! ## Removal -/

/-- The map without the entry of `k`. -/
def remove (m : KeyMap κ ν) (k : κ) : KeyMap κ ν :=
  ⟨m.entries.filter fun row => row.1 ≠ k, (m.nodup.sublist (List.filter_sublist.map _))⟩

theorem find?_remove (m : KeyMap κ ν) (k j : κ) :
    (m.remove k).find? j = if j = k then none else m.find? j := by
  apply Option.ext
  intro v
  by_cases h : j = k
  · simp [find?_eq_some_iff, remove, h]
  · simp [find?_eq_some_iff, remove, h]

/-- The entries whose key meets `p`. -/
def retain (m : KeyMap κ ν) (p : κ → Bool) : KeyMap κ ν :=
  ⟨m.entries.filter fun row => p row.1, m.nodup.sublist (List.filter_sublist.map _)⟩

theorem find?_retain_eq_some_iff (m : KeyMap κ ν) (p : κ → Bool) (k : κ) (v : ν) :
    (m.retain p).find? k = some v ↔ p k = true ∧ m.find? k = some v := by
  rw [find?_eq_some_iff, find?_eq_some_iff, retain, List.mem_filter, and_comm]

/-- The map with every value changed. -/
def mapValues {μ : Type*} (m : KeyMap κ ν) (f : ν → μ) : KeyMap κ μ :=
  ⟨m.entries.map fun row => (row.1, f row.2), by
    simpa [Function.comp_def] using m.nodup⟩

theorem find?_mapValues {μ : Type*} (m : KeyMap κ ν) (f : ν → μ) (k : κ) :
    (m.mapValues f).find? k = (m.find? k).map f := by
  obtain ⟨entries, hnodup⟩ := m
  simp only [find?, mapValues]
  clear hnodup
  induction entries with
  | nil => rfl
  | cons row rest ih =>
      rw [List.map_cons, List.lookup_cons, List.lookup_cons, ih]
      cases k == row.1 <;> rfl

/-! ## Iteration -/

/-- The map with further entries; a later entry takes the place of an earlier one. -/
def extend (m : KeyMap κ ν) (l : List (κ × ν)) : KeyMap κ ν :=
  l.foldl (fun m entry => m.upsert entry.1 fun _ => entry.2) m

theorem find?_extend [BEq κ] [LawfulBEq κ] (m : KeyMap κ ν) (l : List (κ × ν)) (k : κ) :
    (m.extend l).find? k = (l.reverse.lookup k).or (m.find? k) := by
  induction l generalizing m with
  | nil => rfl
  | cons entry l ih =>
      change (extend (m.upsert entry.1 fun _ => entry.2) l).find? k = _
      rw [ih, List.reverse_cons, List.lookup_append]
      by_cases h : k = entry.1
      · subst h
        rw [find?_upsert_self, List.lookup_cons_self, Option.or_assoc]
        rfl
      · rw [find?_upsert_of_ne m _ h, List.lookup_cons, beq_eq_false_iff_ne.mpr h, Option.or_assoc]
        rfl

theorem lookup_eq_of_perm [inst : BEq κ] [LawfulBEq κ] {m : KeyMap κ ν} {l : List (κ × ν)}
    (h : l.Perm m.entries) (k : κ) : l.lookup k = m.find? k := by
  obtain rfl : inst = instBEqOfDecidableEq := lawful_beq_subsingleton _ _
  have hnodup : (l.map Prod.fst).Nodup := (h.map Prod.fst).nodup_iff.mpr m.nodup
  apply Option.ext
  intro v
  rw [find?_eq_some_iff, ← h.mem_iff]
  exact find?_eq_some_iff ⟨l, hnodup⟩ k v

/-- A map in which no key is found is empty. -/
theorem eq_empty_of_find? {m : KeyMap κ ν} (h : ∀ k, m.find? k = none) : m = ∅ := by
  obtain ⟨entries, hnodup⟩ := m
  cases entries with
  | nil => rfl
  | cons row rest =>
      have hrow := (find?_eq_none_iff ⟨row :: rest, hnodup⟩ row.1).mp (h row.1)
      simp at hrow

end Lookup

/-! ## Sums over the entries -/

section Total

variable {M : Type*} [AddCommMonoid M]

/-- The sum of `g` over the entries whose key meets `p`. -/
def total (m : KeyMap κ ν) (p : κ → Bool) (g : ν → M) : M :=
  ((m.entries.filter fun e => p e.1).map fun e => g e.2).sum

@[simp] theorem total_empty (p : κ → Bool) (g : ν → M) : (∅ : KeyMap κ ν).total p g = 0 := rfl

/-- A sum over the entries does not depend on the order of iteration. -/
theorem total_perm {m m' : KeyMap κ ν} (h : m.entries.Perm m'.entries) (p : κ → Bool)
    (g : ν → M) : m.total p g = m'.total p g :=
  ((h.filter _).map _).sum_eq

/-- Updating one entry by a function that adds `d` to the measure `g` adds `d` to
the total exactly when the key is counted. -/
theorem total_upsert [DecidableEq κ] (m : KeyMap κ ν) (p : κ → Bool) (g : ν → M) (k : κ)
    (f : Option ν → ν) (d : M) (hnone : g (f none) = d)
    (hsome : ∀ v, g (f (some v)) = g v + d) :
    (m.upsert k f).total p g = m.total p g + if p k then d else 0 := by
  obtain ⟨l, hl⟩ := m
  simp only [total, upsert]
  clear hl
  induction l with
  | nil => by_cases hp : p k <;> simp [upsertList, hp, hnone]
  | cons a l ih =>
      obtain ⟨i, v⟩ := a
      by_cases hi : i = k
      · subst hi
        by_cases hp : p i
        · simp only [upsertList, ite_true, hp, List.filter_cons, List.map_cons, List.sum_cons,
            hsome]
          exact add_right_comm _ _ _
        · simp [upsertList, hp]
      · by_cases hp : p i
        · simp only [upsertList, hi, ite_false, List.filter_cons, hp, ite_true, List.map_cons,
            List.sum_cons, ih, add_assoc]
        · simpa [upsertList, hi, hp] using ih

theorem total_eq_sum_ite (m : KeyMap κ ν) (p : κ → Bool) (g : ν → M) :
    m.total p g = (m.entries.map fun e => if p e.1 then g e.2 else 0).sum := by
  rw [total]
  induction m.entries with
  | nil => rfl
  | cons e l ih =>
      cases hp : p e.1 with
      | false => simp [hp, ih]
      | true => simp [hp, ih]

theorem total_add_total (m : KeyMap κ ν) (p p' : κ → Bool) (g : ν → M)
    (h : ∀ k, p k = true → p' k = false) :
    m.total p g + m.total p' g = m.total (fun k => p k || p' k) g := by
  rw [total_eq_sum_ite, total_eq_sum_ite, total_eq_sum_ite]
  induction m.entries with
  | nil => simp
  | cons e l ih =>
      rw [List.map_cons, List.map_cons, List.map_cons, List.sum_cons, List.sum_cons,
        List.sum_cons, ← ih]
      cases hp : p e.1 with
      | true => simp [h e.1 hp, add_assoc]
      | false => simp [add_left_comm]

/-- The total over a single key is the measure of its value. -/
theorem total_of_find? [DecidableEq κ] (m : KeyMap κ ν) (g : ν → M) {k : κ} {v : ν}
    (h : m.find? k = some v) : m.total (fun j => decide (j = k)) g = g v := by
  obtain ⟨before, after, hentries⟩ := List.append_of_mem ((m.find?_eq_some_iff k v).mp h)
  have hnodup := m.nodup
  rw [hentries, List.map_append, List.map_cons, List.nodup_append, List.nodup_cons] at hnodup
  have hrest : ∀ e : κ × ν, e ∈ before ∨ e ∈ after → e.1 ≠ k := by
    intro e he hek
    cases he with
    | inl he => exact hnodup.2.2 e.1 (List.mem_map_of_mem he) k (by simp) hek
    | inr he => exact hnodup.2.1.1 (List.mem_map.mpr ⟨e, he, hek⟩)
  have hbefore : before.filter (fun e => decide (e.1 = k)) = [] := by
    rw [List.filter_eq_nil_iff]
    intro e he
    simpa using hrest e (.inl he)
  have hafter : after.filter (fun e => decide (e.1 = k)) = [] := by
    rw [List.filter_eq_nil_iff]
    intro e he
    simpa using hrest e (.inr he)
  simp [total, hentries, hbefore, hafter]

/-! ### Folds of updates -/

section Fold

variable [DecidableEq κ] {α : Type*} (key : α → κ) (f : α → Option ν → ν)

theorem mem_keys_foldl_upsert (l : List α) (m : KeyMap κ ν) (k : κ) :
    k ∈ (l.foldl (fun m a => m.upsert (key a) (f a)) m).entries.map Prod.fst ↔
      (∃ a ∈ l, key a = k) ∨ k ∈ m.entries.map Prod.fst := by
  induction l generalizing m with
  | nil => simp
  | cons a l ih =>
      rw [List.foldl_cons, ih, mem_keys_upsert]
      simp only [List.mem_cons, exists_eq_or_imp, @eq_comm _ k]
      rw [or_left_comm, or_assoc]

/-- A fold of updates that each add `d a` to the measure adds the sum over the
updates whose key is counted. -/
theorem total_foldl_upsert (p : κ → Bool) (g : ν → M) (d : α → M)
    (hnone : ∀ a, g (f a none) = d a) (hsome : ∀ a v, g (f a (some v)) = g v + d a)
    (l : List α) (m : KeyMap κ ν) :
    (l.foldl (fun m a => m.upsert (key a) (f a)) m).total p g =
      m.total p g + (l.map fun a => if p (key a) then d a else 0).sum := by
  induction l generalizing m with
  | nil => simp
  | cons a l ih =>
      rw [List.foldl_cons, ih, total_upsert m p g (key a) (f a) (d a) (hnone a) (hsome a),
        List.map_cons, List.sum_cons, add_assoc]

end Fold

end Total

/-! ## Flags -/

section Flags

variable {κ : Type*} [DecidableEq κ]

/-- A key that meets `p` is flagged. -/
def Flagged (m : KeyMap κ Bool) (p : κ → Prop) : Prop := ∃ k, p k ∧ m.find? k = some true

theorem not_flagged_empty (p : κ → Prop) : ¬Flagged ∅ p := by
  intro h
  obtain ⟨k, -, hk⟩ := h
  cases hk

theorem flagged_retain (m : KeyMap κ Bool) (q : κ → Bool) (p : κ → Prop) :
    (m.retain q).Flagged p ↔ m.Flagged fun k => p k ∧ q k = true := by
  simp only [Flagged, find?_retain_eq_some_iff, and_assoc]

theorem any_iff_flagged (m : KeyMap κ Bool) :
    (m.entries.any fun row => row.2) = true ↔ m.Flagged fun _ => True := by
  simp [Flagged, find?_eq_some_iff]

/-- An update that only raises a flag. -/
theorem flagged_upsert_or (m : KeyMap κ Bool) (p : κ → Prop) (k : κ) (b : Bool) :
    (m.upsert k fun flag => flag.getD false || b).Flagged p ↔ m.Flagged p ∨ p k ∧ b = true := by
  constructor
  · rintro ⟨j, hp, hj⟩
    by_cases hjk : j = k
    · subst hjk
      rw [find?_upsert_self, Option.some_inj, Bool.or_eq_true] at hj
      cases hj with
      | inl hflag =>
          refine .inl ⟨j, hp, ?_⟩
          cases hm : m.find? j with
          | none => simp [hm] at hflag
          | some flag => simpa [hm] using hflag
      | inr hb => exact .inr ⟨hp, hb⟩
    · rw [find?_upsert_of_ne _ _ hjk] at hj
      exact .inl ⟨j, hp, hj⟩
  · rintro (⟨j, hp, hj⟩ | ⟨hp, hb⟩)
    · refine ⟨j, hp, ?_⟩
      by_cases hjk : j = k
      · subst hjk
        rw [find?_upsert_self, hj]
        rfl
      · rw [find?_upsert_of_ne _ _ hjk, hj]
    · exact ⟨k, hp, by rw [find?_upsert_self, hb, Bool.or_true]⟩

/-- A fold of updates that raise flags. -/
theorem flagged_foldl_upsert_or {α : Type*} (key : α → κ) (d : α → Bool) (p : κ → Prop) (l : List α)
    (m : KeyMap κ Bool) :
    (l.foldl (fun m a => m.upsert (key a) fun flag => flag.getD false || d a) m).Flagged p ↔
      m.Flagged p ∨ ∃ a ∈ l, p (key a) ∧ d a = true := by
  induction l generalizing m with
  | nil => simp
  | cons a l ih =>
      rw [List.foldl_cons, ih, flagged_upsert_or]
      simp only [List.mem_cons, exists_eq_or_imp, or_assoc]

end Flags

/-! ## Related maps -/

section Related
variable {κ ν μ : Type*}

/-- Maps with the same keys in the same order, and with related values. -/
def Related (R : ν → μ → Prop) (m : KeyMap κ ν) (m' : KeyMap κ μ) : Prop :=
  List.Forall₂ (fun e e' => e.1 = e'.1 ∧ R e.2 e'.2) m.entries m'.entries

variable {R : ν → μ → Prop} {m : KeyMap κ ν} {m' : KeyMap κ μ}

theorem related_empty : Related R (∅ : KeyMap κ ν) (∅ : KeyMap κ μ) := .nil

theorem Related.keys (h : Related R m m') : m.entries.map Prod.fst = m'.entries.map Prod.fst := by
  rw [Related] at h
  generalize m.entries = l at h ⊢
  generalize m'.entries = l' at h ⊢
  induction h with
  | nil => rfl
  | cons he _ ih => rw [List.map_cons, List.map_cons, he.1, ih]

theorem Related.values (h : Related R m m') (p : κ → Bool) :
    List.Forall₂ R ((m.entries.filter fun e => p e.1).map Prod.snd)
      ((m'.entries.filter fun e => p e.1).map Prod.snd) := by
  rw [Related] at h
  generalize m.entries = l at h ⊢
  generalize m'.entries = l' at h ⊢
  induction h with
  | nil => exact .nil
  | @cons e e' l l' he _ ih =>
      rw [List.filter_cons, List.filter_cons, he.1]
      split
      · exact .cons he.2 ih
      · exact ih

/-- The second map in another order of iteration is related to the first in that order. -/
theorem Related.exists_perm {n' : KeyMap κ μ} (h : Related R m m')
    (hperm : n'.entries.Perm m'.entries) :
    ∃ n : KeyMap κ ν, n.entries.Perm m.entries ∧ Related R n n' := by
  obtain ⟨l, hl, hlm⟩ := List.perm_comp_forall₂ hperm h.flip
  exact ⟨⟨l, (hlm.map Prod.fst).nodup_iff.mpr m.nodup⟩, hlm, hl.flip⟩

variable [DecidableEq κ]

theorem Related.find? (h : Related R m m') (k : κ) : Option.Rel R (m.find? k) (m'.find? k) := by
  simp only [Related, KeyMap.find?] at h ⊢
  generalize m.entries = l at h ⊢
  generalize m'.entries = l' at h ⊢
  induction h with
  | nil => exact .none
  | @cons e e' l l' he _ ih =>
      obtain ⟨j, v⟩ := e
      obtain ⟨j', v'⟩ := e'
      obtain ⟨rfl, hv⟩ : j = j' ∧ R v v' := he
      rw [List.lookup_cons, List.lookup_cons]
      cases k == j with
      | true => exact .some hv
      | false => exact ih

theorem Related.upsert (h : Related R m m') (k : κ) {f : Option ν → ν} {g : Option μ → μ}
    (hfg : ∀ o o', Option.Rel R o o' → R (f o) (g o')) :
    Related R (m.upsert k f) (m'.upsert k g) := by
  simp only [Related, KeyMap.upsert] at h ⊢
  generalize m.entries = l at h ⊢
  generalize m'.entries = l' at h ⊢
  induction h with
  | nil => exact .cons ⟨rfl, hfg _ _ .none⟩ .nil
  | @cons e e' l l' he hl ih =>
      rw [upsertList, upsertList, he.1]
      split
      · exact .cons ⟨rfl, hfg _ _ (.some he.2)⟩ hl
      · exact .cons ⟨rfl, he.2⟩ ih

theorem Related.foldl_upsert {α β : Type*} {key : α → κ} {key' : β → κ} {f : α → Option ν → ν}
    {g : β → Option μ → μ} {l : List α} {l' : List β} (h : Related R m m')
    (hl : List.Forall₂ (fun a b => key a = key' b ∧
      ∀ o o', Option.Rel R o o' → R (f a o) (g b o')) l l') :
    Related R (l.foldl (fun m a => m.upsert (key a) (f a)) m)
      (l'.foldl (fun m b => m.upsert (key' b) (g b)) m') := by
  induction hl generalizing m m' with
  | nil => exact h
  | cons hab _ ih =>
      rw [List.foldl_cons, List.foldl_cons, hab.1]
      exact ih (h.upsert _ hab.2)

end Related
end KeyMap
