import Mathlib.Data.List.Sort
import Mathlib.Data.List.Basic
import Mathlib.Data.List.Induction

/-! Maps whose entries stand in the order of their keys, and the list of pairs a
map is collected from. A later pair replaces an earlier one with the same key. -/

/-- A map as the list of its entries, in strictly increasing order of the keys. -/
structure SortedMap (κ ν : Type*) [LinearOrder κ] where
  entries : List (κ × ν)
  sorted : entries.Pairwise fun a b => a.1 < b.1

namespace SortedMap

variable {κ ν : Type*} [LinearOrder κ]

instance : EmptyCollection (SortedMap κ ν) := ⟨⟨[], .nil⟩⟩

@[simp] theorem entries_empty : (∅ : SortedMap κ ν).entries = [] := rfl

instance [DecidableEq ν] : DecidableEq (SortedMap κ ν) := fun m m' =>
  decidable_of_iff (m.entries = m'.entries) (by cases m; cases m'; simp)

theorem ext_entries {m m' : SortedMap κ ν} (h : m.entries = m'.entries) : m = m' := by
  cases m
  cases m'
  simpa using h

/-- The value stored under `k`. -/
def find? (m : SortedMap κ ν) (k : κ) : Option ν := m.entries.lookup k

/-- Whether a value is stored under `k`. -/
def contains (m : SortedMap κ ν) (k : κ) : Bool := (m.find? k).isSome

def isEmpty (m : SortedMap κ ν) : Bool := m.entries.isEmpty

theorem isEmpty_iff (m : SortedMap κ ν) : m.isEmpty = true ↔ m = ∅ := by
  constructor
  · intro h
    exact ext_entries (List.isEmpty_iff.mp h)
  · rintro rfl
    rfl

@[simp] theorem isEmpty_empty : (∅ : SortedMap κ ν).isEmpty = true := rfl

/-! ## Insertion -/

def insertList (k : κ) (v : ν) : List (κ × ν) → List (κ × ν)
  | [] => [(k, v)]
  | (k', v') :: rest =>
      if k < k' then (k, v) :: (k', v') :: rest
      else if k = k' then (k, v) :: rest
      else (k', v') :: insertList k v rest

theorem mem_insertList {k : κ} {v : ν} {l : List (κ × ν)} {a : κ × ν}
    (h : a ∈ insertList k v l) : a = (k, v) ∨ a ∈ l := by
  induction l with
  | nil => simpa [insertList] using h
  | cons b l ih =>
      simp only [insertList] at h
      split at h
      · simpa using h
      · split at h
        · rcases List.mem_cons.mp h with h | h
          · exact .inl h
          · exact .inr (List.mem_cons_of_mem _ h)
        · rcases List.mem_cons.mp h with h | h
          · exact .inr (List.mem_cons.mpr (.inl h))
          · exact (ih h).imp_right (List.mem_cons_of_mem _)

theorem sorted_insertList (k : κ) (v : ν) (l : List (κ × ν))
    (h : l.Pairwise fun a b => a.1 < b.1) :
    (insertList k v l).Pairwise fun a b => a.1 < b.1 := by
  induction l with
  | nil => simp [insertList]
  | cons b l ih =>
      obtain ⟨hb, hl⟩ := List.pairwise_cons.mp h
      simp only [insertList]
      split
      · rename_i hlt
        refine List.pairwise_cons.mpr ⟨?_, h⟩
        intro a ha
        rcases List.mem_cons.mp ha with rfl | ha
        · exact hlt
        · exact hlt.trans (hb a ha)
      · rename_i hle
        split
        · rename_i heq
          subst heq
          exact List.pairwise_cons.mpr ⟨hb, hl⟩
        · rename_i hne
          refine List.pairwise_cons.mpr ⟨?_, ih hl⟩
          intro a ha
          rcases mem_insertList ha with rfl | ha
          · exact lt_of_le_of_ne (not_lt.mp hle) (Ne.symm hne)
          · exact hb a ha

/-- The map with `v` stored under `k`. -/
def insert (m : SortedMap κ ν) (k : κ) (v : ν) : SortedMap κ ν :=
  ⟨insertList k v m.entries, sorted_insertList k v m.entries m.sorted⟩

theorem lookup_insertList (k j : κ) (v : ν) (l : List (κ × ν)) :
    (insertList k v l).lookup j = if j = k then some v else l.lookup j := by
  induction l with
  | nil =>
      by_cases h : j = k
      · simp [insertList, h]
      · simp [insertList, List.lookup_cons, beq_eq_false_iff_ne.mpr h, h]
  | cons b l ih =>
      obtain ⟨i, w⟩ := b
      simp only [insertList]
      split
      · by_cases h : j = k
        · simp [h]
        · simp [List.lookup_cons, beq_eq_false_iff_ne.mpr h, h]
      · split
        · rename_i heq
          subst heq
          by_cases h : j = k
          · simp [h]
          · simp [List.lookup_cons, beq_eq_false_iff_ne.mpr h, h]
        · rename_i hne
          by_cases h : j = i
          · subst h
            simp [Ne.symm hne]
          · simp [List.lookup_cons, beq_eq_false_iff_ne.mpr h, ih]

theorem find?_insert (m : SortedMap κ ν) (k j : κ) (v : ν) :
    (m.insert k v).find? j = if j = k then some v else m.find? j :=
  lookup_insertList k j v m.entries

@[simp] theorem find?_empty (k : κ) : (∅ : SortedMap κ ν).find? k = none := rfl

/-! ## Values under the same keys -/

/-- The map with every value replaced by its image. -/
def mapValues {μ : Type*} (f : κ → ν → μ) (m : SortedMap κ ν) : SortedMap κ μ where
  entries := m.entries.map fun e => (e.1, f e.1 e.2)
  sorted := List.pairwise_map.mpr m.sorted

theorem find?_mapValues {μ : Type*} (f : κ → ν → μ) (m : SortedMap κ ν) (k : κ) :
    (m.mapValues f).find? k = (m.find? k).map (f k) := by
  simp only [find?, mapValues]
  induction m.entries with
  | nil => rfl
  | cons e l ih =>
      obtain ⟨j, v⟩ := e
      rw [List.map_cons, List.lookup_cons, List.lookup_cons]
      by_cases h : k = j
      · subst h
        simp
      · rw [beq_eq_false_iff_ne.mpr h, ih]

/-! ## Extensionality -/

theorem lookup_of_sorted_mem {l : List (κ × ν)} (hl : l.Pairwise fun a b => a.1 < b.1)
    {k : κ} {v : ν} (h : (k, v) ∈ l) : l.lookup k = some v := by
  induction l with
  | nil => simp at h
  | cons a l ih =>
      obtain ⟨ha, hrest⟩ := List.pairwise_cons.mp hl
      rcases List.mem_cons.mp h with rfl | h
      · simp
      · have hne : k ≠ a.1 := (ha _ h).ne'
        rw [List.lookup_cons, beq_eq_false_iff_ne.mpr hne]
        exact ih hrest h

theorem mem_of_lookup {l : List (κ × ν)} {k : κ} {v : ν} (h : l.lookup k = some v) :
    (k, v) ∈ l := by
  induction l with
  | nil => simp at h
  | cons a l ih =>
      obtain ⟨j, w⟩ := a
      by_cases hj : k = j
      · subst hj
        simp only [List.lookup_cons_self, Option.some.injEq] at h
        simp [h]
      · rw [List.lookup_cons, beq_eq_false_iff_ne.mpr hj] at h
        exact List.mem_cons_of_mem _ (ih h)

theorem find?_eq_some_iff (m : SortedMap κ ν) (k : κ) (v : ν) :
    m.find? k = some v ↔ (k, v) ∈ m.entries :=
  ⟨mem_of_lookup, lookup_of_sorted_mem m.sorted⟩

/-- A map is determined by its lookups. -/
theorem ext_find? {m m' : SortedMap κ ν} (h : ∀ k, m.find? k = m'.find? k) : m = m' := by
  apply ext_entries
  have hmem : ∀ a, a ∈ m.entries ↔ a ∈ m'.entries := by
    rintro ⟨k, v⟩
    rw [← find?_eq_some_iff, ← find?_eq_some_iff, h k]
  have hirr : ∀ l : List (κ × ν), l.Pairwise (fun a b => a.1 < b.1) → l.Nodup :=
    fun l hl => hl.imp fun hab => by rintro rfl; exact hab.ne rfl
  have hperm : m.entries.Perm m'.entries :=
    (List.perm_ext_iff_of_nodup (hirr _ m.sorted) (hirr _ m'.sorted)).mpr hmem
  exact hperm.eq_of_pairwise (fun a b _ _ hab hba => (lt_asymm hab hba).elim) m.sorted m'.sorted

/-! ## Collecting a list of pairs -/

/-- The map collected from a list of pairs. -/
def ofList (l : List (κ × ν)) : SortedMap κ ν :=
  l.foldl (fun m a => m.insert a.1 a.2) ∅

theorem ofList_concat (l : List (κ × ν)) (a : κ × ν) :
    ofList (l ++ [a]) = (ofList l).insert a.1 a.2 := by
  simp [ofList]

/-- The value under `k` is that of the last pair with this key. -/
theorem find?_ofList (l : List (κ × ν)) (k : κ) :
    (ofList l).find? k = ((l.filter fun a => a.1 = k).getLast?).map Prod.snd := by
  induction l using List.reverseRecOn with
  | nil => rfl
  | append_singleton l a ih =>
      rw [ofList_concat, find?_insert, List.filter_append]
      by_cases h : k = a.1
      · simp [h]
      · simp [h, Ne.symm h, ih]

theorem mem_of_mem_ofList {l : List (κ × ν)} {a : κ × ν} (h : a ∈ (ofList l).entries) : a ∈ l := by
  obtain ⟨k, v⟩ := a
  rw [← find?_eq_some_iff, find?_ofList, Option.map_eq_some_iff] at h
  obtain ⟨⟨_, _⟩, hlast, rfl⟩ := h
  obtain ⟨hl, hk⟩ := List.mem_filter.mp (List.mem_of_getLast? hlast)
  simp only [decide_eq_true_eq] at hk
  rwa [← hk]

/-- A collected map has each pair whose key stands with one value only. -/
theorem find?_ofList_iff {l : List (κ × ν)}
    (h : ∀ k v v', (k, v) ∈ l → (k, v') ∈ l → v = v') (k : κ) (v : ν) :
    (ofList l).find? k = some v ↔ (k, v) ∈ l := by
  have hmem : ∀ {w}, (ofList l).find? k = some w → (k, w) ∈ l := by
    intro w hw
    exact mem_of_mem_ofList ((find?_eq_some_iff _ _ _).mp hw)
  refine ⟨hmem, fun hkv => ?_⟩
  cases hfind : (ofList l).find? k with
  | some w => rw [h k w v (hmem hfind) hkv]
  | none =>
      rw [find?_ofList, Option.map_eq_none_iff, List.getLast?_eq_none_iff,
        List.filter_eq_nil_iff] at hfind
      exact absurd (hfind _ hkv) (by simp)

/-- A collected map has every pair just if no key stands with two values. -/
theorem find?_ofList_all_iff {l : List (κ × ν)} :
    (∀ k v, (k, v) ∈ l → (ofList l).find? k = some v) ↔
      ∀ k v v', (k, v) ∈ l → (k, v') ∈ l → v = v' := by
  constructor
  · intro h k v v' hv hv'
    exact Option.some.inj ((h k v hv).symm.trans (h k v' hv'))
  · intro h k v hv
    exact (find?_ofList_iff h k v).mpr hv

theorem exists_of_find?_ofList_map {α : Type*} {key : α → κ} {value : α → ν} {l : List α} {k : κ}
    {v : ν} (h : (ofList (l.map fun a => (key a, value a))).find? k = some v) :
    ∃ a ∈ l, k = key a ∧ v = value a := by
  rw [find?_eq_some_iff] at h
  obtain ⟨a, ha, heq⟩ := List.mem_map.mp (mem_of_mem_ofList h)
  cases heq
  exact ⟨a, ha, rfl, rfl⟩

/-- Each element is found under its key just if those with one key have one value. -/
theorem find?_ofList_map_all_iff {α : Type*} {key : α → κ} {value : α → ν} {l : List α} :
    (∀ a ∈ l, (ofList (l.map fun a => (key a, value a))).find? (key a) = some (value a)) ↔
      ∀ a ∈ l, ∀ a' ∈ l, key a = key a' → value a = value a' := by
  constructor
  · intro h a ha a' ha' hkey
    exact Option.some.inj ((h a ha).symm.trans (hkey ▸ h a' ha'))
  · intro h a ha
    refine (find?_ofList_iff ?_ _ _).mpr (List.mem_map.mpr ⟨a, ha, rfl⟩)
    intro k v v' hv hv'
    obtain ⟨b, hb, heq⟩ := List.mem_map.mp hv
    obtain ⟨b', hb', heq'⟩ := List.mem_map.mp hv'
    cases heq
    rw [Prod.mk.injEq] at heq'
    rw [h b hb b' hb' heq'.1.symm, heq'.2]

/-- The entries of a map collect to the map. -/
theorem ofList_entries (m : SortedMap κ ν) : ofList m.entries = m := by
  have hfun (k : κ) (v v' : ν) (h : (k, v) ∈ m.entries) (h' : (k, v') ∈ m.entries) : v = v' := by
    rw [← find?_eq_some_iff] at h h'
    exact Option.some.inj (h.symm.trans h')
  apply ext_find?
  intro k
  apply Option.ext
  intro v
  rw [find?_ofList_iff hfun, find?_eq_some_iff]

theorem ofList_eq_empty_iff (l : List (κ × ν)) : ofList l = ∅ ↔ l = [] := by
  constructor
  · intro h
    cases l using List.reverseRecOn with
    | nil => rfl
    | append_singleton l a =>
        have hfind := congrArg (fun m => m.find? a.1) h
        simp [ofList_concat, find?_insert] at hfind
  · rintro rfl
    rfl

/-! ### Collecting through a stable sort

Sorting the pairs stably by key and keeping the last pair of every run of equal
keys gives the entries of the collected map. -/

/-- The last pair of every run of equal keys. -/
def lastOfRuns : List (κ × ν) → List (κ × ν)
  | [] => []
  | [a] => [a]
  | a :: b :: rest =>
      if b.1 = a.1 then lastOfRuns (b :: rest) else a :: lastOfRuns (b :: rest)

/-- A stable sort of the pairs by their keys. -/
def sortByKey (l : List (κ × ν)) : List (κ × ν) :=
  l.insertionSort fun a b => a.1 ≤ b.1

theorem sortByKey_sorted (l : List (κ × ν)) :
    (sortByKey l).Pairwise fun a b => a.1 ≤ b.1 := by
  have : Std.Total (fun a b : κ × ν => a.1 ≤ b.1) := ⟨fun a b => le_total a.1 b.1⟩
  have : IsTrans (κ × ν) (fun a b => a.1 ≤ b.1) := ⟨fun _ _ _ => le_trans⟩
  exact List.pairwise_insertionSort _ l

/-- The sort looks at the keys only. -/
theorem sortByKey_map {μ : Type*} (f : ν → μ) (l : List (κ × ν)) :
    sortByKey (l.map fun e => (e.1, f e.2)) = (sortByKey l).map fun e => (e.1, f e.2) :=
  (List.map_insertionSort (fun a b : κ × ν => a.1 ≤ b.1) (fun a b : κ × μ => a.1 ≤ b.1)
    (fun e => (e.1, f e.2)) l fun _ _ _ _ => Iff.rfl).symm

theorem filter_orderedInsert (k : κ) (a : κ × ν) (l : List (κ × ν)) :
    (l.orderedInsert (fun a b => a.1 ≤ b.1) a).filter (fun b => b.1 = k) =
      (a :: l).filter fun b => b.1 = k := by
  induction l with
  | nil => rfl
  | cons b l ih =>
      by_cases hab : a.1 ≤ b.1
      · simp [List.orderedInsert_cons, hab]
      · rw [List.orderedInsert_cons, if_neg hab, List.filter_cons, ih]
        by_cases hb : b.1 = k
        · have hak : a.1 ≠ k := by
            rintro rfl
            exact hab hb.ge
          simp [hb, hak]
        · simp [List.filter_cons, hb]

/-- The sort keeps the pairs with one key in their order. -/
theorem filter_sortByKey (k : κ) (l : List (κ × ν)) :
    (sortByKey l).filter (fun a => a.1 = k) = l.filter fun a => a.1 = k := by
  induction l with
  | nil => rfl
  | cons a l ih =>
      rw [sortByKey, List.insertionSort_cons, filter_orderedInsert, List.filter_cons,
        List.filter_cons]
      rw [sortByKey] at ih
      rw [ih]

theorem lastOfRuns_sublist (l : List (κ × ν)) : (lastOfRuns l).Sublist l := by
  fun_induction lastOfRuns l with
  | case1 => exact .slnil
  | case2 a => exact List.Sublist.refl _
  | case3 a b rest h ih => exact ih.cons a
  | case4 a b rest h ih => exact ih.cons_cons a

theorem sorted_lastOfRuns (l : List (κ × ν)) (h : l.Pairwise fun a b => a.1 ≤ b.1) :
    (lastOfRuns l).Pairwise fun a b => a.1 < b.1 := by
  fun_induction lastOfRuns l with
  | case1 => exact .nil
  | case2 a => exact List.pairwise_singleton _ _
  | case3 a b rest hab ih => exact ih h.tail
  | case4 a b rest hab ih =>
      refine List.pairwise_cons.mpr ⟨?_, ih h.tail⟩
      intro c hc
      have hbc : b.1 ≤ c.1 := by
        rcases List.mem_cons.mp ((lastOfRuns_sublist _).subset hc) with rfl | hc
        · exact le_rfl
        · exact (List.pairwise_cons.mp h.tail).1 c hc
      exact lt_of_lt_of_le (lt_of_le_of_ne ((List.pairwise_cons.mp h).1 b (by simp))
        (Ne.symm hab)) hbc

theorem lookup_lastOfRuns (l : List (κ × ν)) (h : l.Pairwise fun a b => a.1 ≤ b.1) (k : κ) :
    (lastOfRuns l).lookup k = ((l.filter fun a => a.1 = k).getLast?).map Prod.snd := by
  fun_induction lastOfRuns l with
  | case1 => rfl
  | case2 a =>
      obtain ⟨i, v⟩ := a
      by_cases hk : k = i
      · simp [hk]
      · simp [List.lookup_cons, beq_eq_false_iff_ne.mpr hk, Ne.symm hk]
  | case3 a b rest hab ih =>
      rw [ih h.tail]
      by_cases hk : a.1 = k
      · have hbk : b.1 = k := hab.trans hk
        simp [hk, hbk]
      · simp [List.filter_cons, hk]
  | case4 a b rest hab ih =>
      obtain ⟨i, v⟩ := a
      by_cases hk : k = i
      · subst hk
        have hnone : (b :: rest).filter (fun c => decide (c.1 = k)) = [] := by
          rw [List.filter_eq_nil_iff]
          intro c hc
          have hkb : k < b.1 :=
            lt_of_le_of_ne ((List.pairwise_cons.mp h).1 b (by simp)) (Ne.symm hab)
          have hbc : b.1 ≤ c.1 := by
            rcases List.mem_cons.mp hc with rfl | hc
            · exact le_rfl
            · exact (List.pairwise_cons.mp h.tail).1 c hc
          simpa using (hkb.trans_le hbc).ne'
        simp [List.filter_cons_of_pos, hnone]
      · have hfilter : ((i, v) :: b :: rest).filter (fun c => decide (c.1 = k)) =
            (b :: rest).filter fun c => decide (c.1 = k) := by
          rw [List.filter_cons_of_neg (by simpa using Ne.symm hk)]
        rw [List.lookup_cons, beq_eq_false_iff_ne.mpr hk, hfilter]
        exact ih h.tail

theorem lastOfRuns_sortByKey (l : List (κ × ν)) :
    lastOfRuns (sortByKey l) = (ofList l).entries := by
  have hm : (⟨_, sorted_lastOfRuns _ (sortByKey_sorted l)⟩ : SortedMap κ ν) = ofList l := by
    apply ext_find?
    intro k
    rw [find?_ofList, ← filter_sortByKey k l]
    exact lookup_lastOfRuns _ (sortByKey_sorted l) k
  exact congrArg entries hm

end SortedMap
