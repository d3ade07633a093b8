import K6Rs.Verification.Thresholds.Resolve
import Mathlib.Algebra.Order.Group.Multiset

/-! The values behind a metric. A store of metrics follows a store of the lists of values that were
written, cell by cell and row by row; what a metric holds does not depend on their order. -/

namespace K6Rs

open FloatOps MetricSelector
open scoped UInt64.CommRing

/-! ## Histories of cells -/

section Histories

variable {α : Type}

/-- The cells with the values that were written to them. -/
def histories (ws : List (MetricSelector × α)) : KeyMap Str (List α) :=
  ws.foldl (fun m w => m.upsert (canonical w.1) fun l => l.getD [] ++ [w.2]) ∅

/-- The values written to the selectors that meet `p`. -/
def valuesOf (p : MetricSelector → Bool) (ws : List (MetricSelector × α)) : List α :=
  (ws.filter fun w => p w.1).map Prod.snd

theorem sumOver_singleton (p : MetricSelector → Bool) (ws : List (MetricSelector × α)) :
    sumOver p (fun a => ({a} : Multiset α)) ws = ↑(valuesOf p ws) := by
  rw [sumOver, valuesOf]
  induction ws with
  | nil => rfl
  | cons w ws ih =>
      rw [List.map_cons, List.sum_cons, ih, List.filter_cons]
      cases p w.1 <;> simp

theorem total_histories (ws : List (MetricSelector × α)) (p : Str → Bool) :
    (histories ws).total p (fun l => (l : Multiset α)) =
      (ws.map fun w => if p (canonical w.1) then ({w.2} : Multiset α) else 0).sum := by
  rw [histories, KeyMap.total_foldl_upsert _ _ p (fun l : List α => (l : Multiset α)) fun w =>
    {w.2}]
  · simp
  · intro w
    rfl
  · intro w l
    exact (Multiset.coe_add l [w.2]).symm

theorem coe_flatten_values (m : KeyMap Str (List α)) (p : Str → Bool) :
    (((m.entries.filter fun e => p e.1).map Prod.snd).flatten : Multiset α) =
      m.total p fun l => (l : Multiset α) := by
  rw [KeyMap.total]
  induction m.entries.filter fun e => p e.1 with
  | nil => rfl
  | cons e l ih =>
      rw [List.map_cons, List.map_cons, List.flatten_cons, List.sum_cons, ← ih, Multiset.coe_add]

theorem holdsWrites_histories {ws : List (MetricSelector × α)} (h : ∀ w ∈ ws, Readable w.1)
    {hist : KeyMap Str (List α)} (hperm : hist.entries.Perm (histories ws).entries) :
    HoldsWrites hist ws := by
  refine ⟨h, fun k => ?_⟩
  rw [(hperm.map Prod.fst).mem_iff, histories, KeyMap.mem_keys_foldl_upsert]
  simp

/-- The untagged row has the values of all writes to the metric. -/
theorem total_untagged {ws : List (MetricSelector × α)} (h : ∀ w ∈ ws, Readable w.1)
    {hist : KeyMap Str (List α)} (hperm : hist.entries.Perm (histories ws).entries) {name : Str}
    (hname : Readable ⟨name, ∅⟩) :
    (deriveRows (· ++ ·) hist).total (fun row => row = name) (fun l => (l : Multiset α)) =
      ↑(valuesOf (fun sel => sel.name = name) ws) := by
  have hdisjoint : ∀ k, decide (passThrough k = name) = true →
      (untaggedRow k).any (fun row => decide (row = name)) = false := by
    intro k hk
    cases hrow : untaggedRow k with
    | none => rfl
    | some row =>
        have hne := passThrough_ne_of_untaggedRow hrow
        rw [of_decide_eq_true hk] at hne
        simpa using hne.symm
  rw [total_deriveRows _ _ _ _ fun l l' => (Multiset.coe_add l l').symm,
    KeyMap.total_add_total _ _ _ _ hdisjoint, KeyMap.total_perm hperm, total_histories,
    ← sumOver_singleton]
  refine sumOver_congr (p := fun sel => decide (passThrough (canonical sel) = name) ||
    (untaggedRow (canonical sel)).any fun row => decide (row = name)) _ ws fun w hw => ?_
  have hread := h w hw
  rw [passThrough_canonical hread, untaggedRow_canonical hread]
  cases htags : w.1.tags.isEmpty with
  | true =>
      have hbare : canonical w.1 = w.1.name := by
        rw [canonical_eq, if_pos ((SortedMap.isEmpty_iff _).mp htags)]
      simp [hbare]
  | false =>
      have hne : canonical w.1 ≠ name := by
        rintro rfl
        rw [Readable] at hname hread
        change parse (canonical w.1) = _ at hname
        rw [hread] at hname
        have hempty := congrArg MetricSelector.tags (Except.ok.inj hname)
        rw [hempty] at htags
        cases htags
      simp [hne]

theorem mem_untagged_iff {ws : List (MetricSelector × α)} {ν : Type} {stored : KeyMap Str ν}
    (h : HoldsWrites stored ws) (merge : ν → ν → ν) {name : Str} (hname : Readable ⟨name, ∅⟩) :
    name ∈ (deriveRows merge stored).entries.map Prod.fst ↔ ∃ w ∈ ws, w.1.name = name := by
  constructor
  · intro hrow
    obtain ⟨w, hw, sel, hparse, hsel⟩ := exists_of_derived_row h merge hrow
    have heq : sel = ⟨name, ∅⟩ := Except.ok.inj (hparse.symm.trans hname)
    refine ⟨w, hw, ?_⟩
    rcases hsel with rfl | rfl
    · rw [heq]
    · exact congrArg MetricSelector.name heq
  · rintro ⟨w, hw, rfl⟩
    have hread := h.readable w hw
    refine (mem_keys_deriveRows merge stored _).mpr ⟨_, (h.keys _).mpr ⟨w, hw, rfl⟩, ?_⟩
    rw [passThrough_canonical hread, untaggedRow_canonical hread]
    cases htags : w.1.tags.isEmpty with
    | true =>
        left
        rw [canonical_eq, if_pos ((SortedMap.isEmpty_iff _).mp htags)]
    | false => exact .inr rfl

/-- The write without its tags. -/
def bare (w : MetricSelector × α) : MetricSelector × α := (⟨w.1.name, ∅⟩, w.2)

end Histories

/-! ## Metrics that follow a history -/

section Keeps

variable {α ν : Type}

/-- Recording and merging keep what a metric holds of the values behind it. -/
structure Keeps (Holds : List α → ν → Prop) (new : ν) (record : ν → α → ν)
    (merge : ν → ν → ν) : Prop where
  new : Holds [] new
  record : ∀ {l v} (a : α), Holds l v → Holds (l ++ [a]) (record v a)
  merge : ∀ {l l' v v'}, Holds l v → Holds l' v' → Holds (l ++ l') (merge v v')

/-- A row holds the values, in some order, and there is none if there are none. -/
def Shows (Holds : List α → ν → Prop) (values : List α) (row : Option ν) : Prop :=
  match row with
  | none => values = []
  | some v => values ≠ [] ∧ ∃ l, l.Perm values ∧ Holds l v

theorem Shows.rel {Holds : List α → ν → Prop} {Same : ν → ν → Prop}
    (hsame : ∀ {l l' v v'}, l.Perm l' → Holds l v → Holds l' v' → Same v v') {values : List α}
    {row row' : Option ν} (h : Shows Holds values row) (h' : Shows Holds values row') :
    Option.Rel Same row row' := by
  cases row with
  | none =>
      cases row' with
      | none => exact .none
      | some v' => exact absurd h h'.1
  | some v =>
      cases row' with
      | none => exact absurd h' h.1
      | some v' =>
          obtain ⟨-, l, hl, hv⟩ := h
          obtain ⟨-, l', hl', hv'⟩ := h'
          exact .some (hsame (hl.trans hl'.symm) hv hv')

/-- A metric that holds values, and was given at least one. -/
def Filled (Holds : List α → ν → Prop) (l : List α) (v : ν) : Prop := l ≠ [] ∧ Holds l v

/-- The store after writes. -/
def recorded (new : ν) (record : ν → α → ν) (ws : List (MetricSelector × α)) : KeyMap Str ν :=
  ws.foldl (fun m w => m.upsert (canonical w.1) fun v => record (v.getD new) w.2) ∅

/-- The values written to a cell. -/
def valuesAt (k : Str) (ws : List (MetricSelector × α)) : List α :=
  (ws.filter fun w => canonical w.1 = k).map Prod.snd

theorem valuesAt_bare (name : Str) (ws : List (MetricSelector × α)) :
    valuesAt name (ws.map bare) = valuesOf (fun sel => sel.name = name) ws := by
  rw [valuesAt, valuesOf, List.filter_map, List.map_map]
  have hkey (w : MetricSelector × α) : canonical (bare w).1 = w.1.name := by
    rw [bare, canonical_eq, if_pos rfl]
  simp only [Function.comp_def, hkey]
  rfl

theorem find?_recorded (new : ν) (record : ν → α → ν) (ws : List (MetricSelector × α)) (k : Str) :
    (recorded new record ws).find? k =
      if valuesAt k ws = [] then none else some ((valuesAt k ws).foldl record new) := by
  induction ws using List.reverseRecOn with
  | nil => rfl
  | append_singleton ws w ih =>
      have hstep : recorded new record (ws ++ [w]) =
          (recorded new record ws).upsert (canonical w.1) fun v => record (v.getD new) w.2 := by
        rw [recorded, List.foldl_append, ← recorded]
        rfl
      rw [hstep, valuesAt, List.filter_append, List.map_append, ← valuesAt]
      by_cases hk : canonical w.1 = k
      · subst hk
        have hcell : ((recorded new record ws).find? (canonical w.1)).getD new =
            (valuesAt (canonical w.1) ws).foldl record new := by
          rw [ih]
          split
          · rename_i hnil
            rw [hnil]
            rfl
          · rfl
        rw [KeyMap.find?_upsert_self, hcell]
        simp
      · rw [KeyMap.find?_upsert_of_ne _ _ (Ne.symm hk), ih]
        simp [hk]

theorem KeyMap.find?_of_perm {m m' : KeyMap Str ν} (h : m.entries.Perm m'.entries) (k : Str) :
    m.find? k = m'.find? k := by
  apply Option.ext
  intro v
  rw [KeyMap.find?_eq_some_iff, KeyMap.find?_eq_some_iff, h.mem_iff]

theorem Related.deriveRows {R : List α → ν → Prop} {merge : ν → ν → ν}
    (hmerge : ∀ {l l' v v'}, R l v → R l' v' → R (l ++ l') (merge v v'))
    {hist : KeyMap Str (List α)} {stored : KeyMap Str ν} (h : KeyMap.Related R hist stored) :
    KeyMap.Related R (deriveRows (· ++ ·) hist) (deriveRows merge stored) := by
  rw [deriveRows_eq_foldl, deriveRows_eq_foldl]
  refine KeyMap.related_empty.foldl_upsert ?_
  rw [KeyMap.Related] at h
  generalize hist.entries = entries at h ⊢
  generalize stored.entries = entries' at h ⊢
  induction h with
  | nil => exact .nil
  | @cons e e' entries entries' he _ ih =>
      rw [List.flatMap_cons, List.flatMap_cons, he.1]
      refine List.rel_append ?_ ih
      rw [List.forall₂_map_left_iff, List.forall₂_map_right_iff]
      refine List.forall₂_same.mpr fun target _ => ⟨rfl, fun o o' ho => ?_⟩
      cases ho with
      | none => exact he.2
      | some hv => exact hmerge hv he.2

variable {Holds : List α → ν → Prop} {new : ν} {record : ν → α → ν} {merge : ν → ν → ν}
  (hk : Keeps Holds new record merge)

include hk

theorem Keeps.related (ws : List (MetricSelector × α)) :
    KeyMap.Related (Filled Holds) (histories ws) (recorded new record ws) := by
  refine KeyMap.related_empty.foldl_upsert (List.forall₂_same.mpr fun w _ => ⟨rfl, ?_⟩)
  intro o o' ho
  cases ho with
  | none => exact ⟨by simp, hk.record w.2 hk.new⟩
  | some hv => exact ⟨by simp, hk.record w.2 hv.2⟩

theorem Keeps.filled_merge {l l' : List α} {v v' : ν} (h : Filled Holds l v)
    (h' : Filled Holds l' v') : Filled Holds (l ++ l') (merge v v') :=
  ⟨List.append_ne_nil_of_left_ne_nil h.1 l', hk.merge h.2 h'.2⟩

/-- A store with the cells of writes in any order has their histories in that order. -/
theorem Keeps.exists_histories {ws : List (MetricSelector × α)} {stored : KeyMap Str ν}
    (hperm : stored.entries.Perm (recorded new record ws).entries) :
    ∃ hist : KeyMap Str (List α), hist.entries.Perm (histories ws).entries ∧
      KeyMap.Related (Filled Holds) hist stored :=
  (hk.related ws).exists_perm hperm

/-- The untagged row holds the values of all writes to the metric, if there are any. -/
theorem Keeps.untagged {ws : List (MetricSelector × α)} (h : ∀ w ∈ ws, Readable w.1)
    {stored : KeyMap Str ν} (hperm : stored.entries.Perm (recorded new record ws).entries)
    {name : Str} (hname : Readable ⟨name, ∅⟩) :
    ∃ o : Option (List α), Option.Rel (Filled Holds) o ((deriveRows merge stored).find? name) ∧
      (o.isSome ↔ ∃ w ∈ ws, w.1.name = name) ∧
      ∀ l, o = some l → l.Perm (valuesOf (fun sel => sel.name = name) ws) := by
  obtain ⟨hist, hhist, hrel⟩ := hk.exists_histories hperm
  refine ⟨_, (Related.deriveRows hk.filled_merge hrel).find? name, ?_, fun l hl => ?_⟩
  · rw [← mem_untagged_iff (holdsWrites_histories h hhist) (· ++ ·) hname, ← not_iff_not,
      ← KeyMap.find?_eq_none_iff, Bool.not_eq_true, Option.isSome_eq_false_iff,
      Option.isNone_iff_eq_none]
  · rw [← Multiset.coe_eq_coe, ← total_untagged h hhist hname]
    exact (KeyMap.total_of_find? _ _ hl).symm

theorem Keeps.untagged_row {ws : List (MetricSelector × α)} (h : ∀ w ∈ ws, Readable w.1)
    {stored : KeyMap Str ν} (hperm : stored.entries.Perm (recorded new record ws).entries)
    {name : Str} (hname : Readable ⟨name, ∅⟩) :
    Shows Holds (valuesOf (fun sel => sel.name = name) ws)
      ((deriveRows merge stored).find? name) := by
  obtain ⟨o, hrel, hsome, hvalues⟩ := hk.untagged h hperm hname
  generalize (deriveRows merge stored).find? name = row at hrel ⊢
  cases hrel with
  | none =>
      refine List.map_eq_nil_iff.mpr (List.filter_eq_nil_iff.mpr fun w hw heq => ?_)
      exact absurd (hsome.mpr ⟨w, hw, of_decide_eq_true heq⟩) Bool.false_ne_true
  | some hv =>
      refine ⟨fun hnil => hv.1 ?_, _, hvalues _ rfl, hv.2⟩
      have hl := hvalues _ rfl
      rwa [hnil, List.perm_nil] at hl

/-- A cell whose samples have no tags has all values of its metric. -/
theorem Keeps.untagged_cell {ws : List (MetricSelector × α)} {stored : KeyMap Str ν}
    (hperm : stored.entries.Perm (recorded new record (ws.map bare)).entries) (name : Str) :
    Shows Holds (valuesOf (fun sel => sel.name = name) ws) (stored.find? name) := by
  have hfold (l : List α) : Holds l (l.foldl record new) := by
    induction l using List.reverseRecOn with
    | nil => exact hk.new
    | append_singleton l a ih =>
        rw [List.foldl_append]
        exact hk.record a ih
  rw [KeyMap.find?_of_perm hperm, find?_recorded, valuesAt_bare]
  split
  · rename_i hnil
    exact hnil
  · rename_i hne
    exact ⟨hne, _, .refl _, hfold _⟩

/-- The cells that a live read merges hold the values of the selected writes. -/
theorem Keeps.selected_cells {ws : List (MetricSelector × α)} (h : ∀ w ∈ ws, Readable w.1)
    {stored : KeyMap Str ν} (hperm : stored.entries.Perm (recorded new record ws).entries)
    {q : Str} {query : MetricSelector} (hq : parse q = .ok query) :
    ∃ ls : List (List α), List.Forall₂ (Filled Holds) ls
        ((stored.entries.filter fun e => storedMatchesQuery e.1 (parseQuery q) q).map Prod.snd) ∧
      ls.flatten.Perm (valuesOf (selects query) ws) := by
  obtain ⟨hist, hhist, hrel⟩ := hk.exists_histories hperm
  refine ⟨_, hrel.values fun k => storedMatchesQuery k (parseQuery q) q, ?_⟩
  rw [← Multiset.coe_eq_coe,
    coe_flatten_values hist fun k => storedMatchesQuery k (parseQuery q) q, ← sumOver_singleton]
  refine total_live hq (holdsWrites_histories h hhist) _ _ fun p => ?_
  rw [KeyMap.total_perm hhist, total_histories]

/-- The rows that match a tagged selector hold the values of the selected writes as well: the
untagged rows do not match it. -/
theorem Keeps.selected_rows {ws : List (MetricSelector × α)} (h : ∀ w ∈ ws, Readable w.1)
    {stored : KeyMap Str ν} (hperm : stored.entries.Perm (recorded new record ws).entries)
    {rows : KeyMap Str ν} (hrows : rows.entries.Perm (deriveRows merge stored).entries)
    {q : Str} {query : MetricSelector} (hq : parse q = .ok query) (htags : query.tags ≠ ∅) :
    ∃ ls : List (List α), List.Forall₂ (Filled Holds) ls
        ((rows.entries.filter fun e => storedIsSubsetMatch q e.1).map Prod.snd) ∧
      ls.flatten.Perm (valuesOf (selects query) ws) := by
  obtain ⟨hist, hhist, hrel⟩ := hk.exists_histories hperm
  obtain ⟨rowHist, hrowHist, hrowRel⟩ :=
    (Related.deriveRows hk.filled_merge hrel).exists_perm hrows
  refine ⟨_, hrowRel.values (storedIsSubsetMatch q), ?_⟩
  have hagain : ∀ w ∈ ws, seenAgain query w.1 = false := fun w _ => by
    rw [seenAgain, Bool.eq_false_iff.mpr fun hempty => htags ((SortedMap.isEmpty_iff _).mp hempty),
      Bool.false_and]
  rw [← Multiset.coe_eq_coe, coe_flatten_values rowHist, ← sumOver_singleton,
    KeyMap.total_perm hrowHist,
    total_engine hq (holdsWrites_histories h hhist) _ _ (fun l l' => (Multiset.coe_add l l').symm)
      (fun a => {a}) fun p => by rw [KeyMap.total_perm hhist, total_histories],
    sumOver_eq_zero _ hagain, add_zero]

end Keeps

end K6Rs
