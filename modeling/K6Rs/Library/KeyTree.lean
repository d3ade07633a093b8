import K6Rs.Library.SortedMap
import Mathlib.Data.List.Infix

/-! Trees whose nodes have a value and children that are ordered by a key. A node is found by
the list of keys on the way to it, and a visit creates the nodes that are missing on its
way. -/

inductive KeyTree (κ α : Type*) where
  | node (value : α) (children : List (κ × KeyTree κ α))

namespace KeyTree

variable {κ α β γ : Type*}

def value : KeyTree κ α → α
  | .node v _ => v

def children : KeyTree κ α → List (κ × KeyTree κ α)
  | .node _ cs => cs

def leaf (v : α) : KeyTree κ α := .node v []

mutual

def map (f : α → β) : KeyTree κ α → KeyTree κ β
  | .node v cs => .node (f v) (mapChildren f cs)

def mapChildren (f : α → β) : List (κ × KeyTree κ α) → List (κ × KeyTree κ β)
  | [] => []
  | (k, t) :: cs => (k, map f t) :: mapChildren f cs

end

mutual

/-- The nodes with the keys on the way to them, parents before their children; the keys on the
way to the root are `way`. -/
def walk (way : List κ) : KeyTree κ α → List (List κ × KeyTree κ α)
  | .node v cs => (way, .node v cs) :: walkChildren way cs

def walkChildren (way : List κ) : List (κ × KeyTree κ α) → List (List κ × KeyTree κ α)
  | [] => []
  | (k, t) :: cs => walk (way ++ [k]) t ++ walkChildren way cs

end

@[simp] theorem value_map (f : α → β) (t : KeyTree κ α) : (t.map f).value = f t.value := by
  cases t
  rfl

@[simp] theorem children_map (f : α → β) (t : KeyTree κ α) :
    (t.map f).children = mapChildren f t.children := by
  cases t
  rfl

theorem mapChildren_eq_map (f : α → β) (cs : List (κ × KeyTree κ α)) :
    mapChildren f cs = cs.map fun c => (c.1, c.2.map f) := by
  induction cs with
  | nil => rfl
  | cons c cs ih => rw [mapChildren, ih, List.map_cons]

def updateValue (g : α → α) : KeyTree κ α → KeyTree κ α
  | .node v cs => .node (g v) cs

@[simp] theorem value_updateValue (g : α → α) (t : KeyTree κ α) :
    (t.updateValue g).value = g t.value := by
  cases t
  rfl

@[simp] theorem children_updateValue (g : α → α) (t : KeyTree κ α) :
    (t.updateValue g).children = t.children := by
  cases t
  rfl

section Lookup

variable [LinearOrder κ]

/-- The node at the end of a way. -/
def at? : List κ → KeyTree κ α → Option (KeyTree κ α)
  | [], t => some t
  | k :: ks, t => (t.children.lookup k).bind (at? ks)

def updateChild (k : κ) (f : Option (KeyTree κ α) → KeyTree κ α) : KeyTree κ α → KeyTree κ α
  | .node v cs => .node v (SortedMap.insertList k (f (cs.lookup k)) cs)

/-- Update the value at the end of a way. A node that is missing on the way is created from its
key and from what `next` has made of the keys before. -/
def visit {σ : Type*} (next : σ → κ → σ) (fresh : κ → σ → α) (g : α → α) :
    List κ → σ → KeyTree κ α → KeyTree κ α
  | [], _, t => t.updateValue g
  | k :: ks, s, t =>
      t.updateChild k fun c => visit next fresh g ks (next s k) (c.getD (leaf (fresh k (next s k))))

@[simp] theorem at?_nil (t : KeyTree κ α) : t.at? [] = some t := rfl

theorem at?_cons (k : κ) (ks : List κ) (t : KeyTree κ α) :
    t.at? (k :: ks) = (t.children.lookup k).bind (at? ks) := rfl

theorem at?_append (ks js : List κ) (t : KeyTree κ α) :
    t.at? (ks ++ js) = (t.at? ks).bind (at? js) := by
  induction ks generalizing t with
  | nil => rfl
  | cons k ks ih =>
      rw [List.cons_append, at?_cons, at?_cons, Option.bind_assoc]
      exact Option.bind_congr fun c _ => ih c

@[simp] theorem value_updateChild (k : κ) (f : Option (KeyTree κ α) → KeyTree κ α)
    (t : KeyTree κ α) : (t.updateChild k f).value = t.value := by
  cases t
  rfl

theorem lookup_updateChild (k j : κ) (f : Option (KeyTree κ α) → KeyTree κ α) (t : KeyTree κ α) :
    (t.updateChild k f).children.lookup j =
      if j = k then some (f (t.children.lookup k)) else t.children.lookup j := by
  cases t
  exact SortedMap.lookup_insertList _ _ _ _

/-! ## The values of a visited tree -/

section Visit

variable {σ : Type*} (next : σ → κ → σ) (fresh : κ → σ → α)

/-- The value of a node that is created at the end of a way, which is not empty. -/
def freshAt (s : σ) : List κ → Option α
  | [] => none
  | [k] => some (fresh k (next s k))
  | k :: ks => freshAt (next s k) ks

/-- The value at the end of a way, or the one that would be created there. -/
def valueAt (s : σ) (q : List κ) (t : KeyTree κ α) : Option α :=
  ((t.at? q).map value).or (freshAt next fresh s q)

theorem valueAt_leaf (s : σ) (k : κ) (q : List κ) :
    valueAt next fresh (next s k) q (leaf (fresh k (next s k))) =
    freshAt next fresh s (k :: q) := by
  cases q with
  | nil => rfl
  | cons j q => simp [valueAt, freshAt, at?_cons, leaf, children]

/-- A visit updates the end of its way, creates what is missing before it, and leaves the other
nodes alone. -/
theorem value_at?_visit (g : α → α) (ks : List κ) (s : σ) (t : KeyTree κ α) (q : List κ) :
    ((t.visit next fresh g ks s).at? q).map value =
      if q <+: ks then (valueAt next fresh s q t).map fun v => if q = ks then g v else v
      else (t.at? q).map value := by
  induction ks generalizing s t q with
  | nil =>
      cases q with
      | nil => simp [visit, valueAt]
      | cons j q => simp [visit, at?_cons]
  | cons k ks ih =>
      cases q with
      | nil => simp [visit, valueAt]
      | cons j q =>
          rw [visit, at?_cons, lookup_updateChild]
          by_cases hj : j = k
          · subst hj
            rw [if_pos rfl, Option.bind_some, ih]
            simp only [List.cons_prefix_cons, true_and, List.cons.injEq]
            cases hchild : t.children.lookup j with
            | none =>
                rw [Option.getD_none, valueAt_leaf]
                simp only [valueAt, at?_cons, hchild, Option.bind_none, Option.map_none,
                  Option.none_or]
                split
                · rfl
                · rename_i hq
                  cases q with
                  | nil => exact absurd (List.nil_prefix) hq
                  | cons i q => rfl
            | some c =>
                have hfresh : (q ≠ [] → freshAt next fresh (next s j) q =
                    freshAt next fresh s (j :: q)) := by
                  intro hq
                  cases q with
                  | nil => contradiction
                  | cons i q => rfl
                rw [Option.getD_some]
                simp only [valueAt, at?_cons, hchild, Option.bind_some]
                split
                · cases q with
                  | nil => simp
                  | cons i q => rw [hfresh (by simp)]
                · rfl
          · rw [if_neg hj, if_neg (by simp [hj]), at?_cons]

end Visit

/-! ## Ordered trees -/

/-- The children of every node stand in the order of their keys. -/
def Ordered (t : KeyTree κ α) : Prop :=
  ∀ q m, t.at? q = some m → m.children.Pairwise fun a b => a.1 < b.1

theorem ordered_leaf (v : α) : (leaf v : KeyTree κ α).Ordered := by
  intro q m h
  cases q with
  | nil =>
      cases h
      exact List.Pairwise.nil
  | cons k q => cases h

theorem Ordered.child {t c : KeyTree κ α} (h : t.Ordered) {k : κ}
    (hc : t.children.lookup k = some c) : c.Ordered :=
  fun q m hm => h (k :: q) m (by rw [at?_cons, hc, Option.bind_some, hm])

theorem ordered_of_children {t : KeyTree κ α} (h : t.children.Pairwise fun a b => a.1 < b.1)
    (hchildren : ∀ k c, t.children.lookup k = some c → c.Ordered) : t.Ordered := by
  intro q m hm
  cases q with
  | nil =>
      cases hm
      exact h
  | cons k q =>
      rw [at?_cons, Option.bind_eq_some_iff] at hm
      obtain ⟨c, hc, hm⟩ := hm
      exact hchildren k c hc q m hm

theorem Ordered.at? {t m : KeyTree κ α} (h : t.Ordered) {p : List κ} (hm : t.at? p = some m) :
    m.Ordered :=
  fun q n hn => h (p ++ q) n (by rw [at?_append, hm, Option.bind_some, hn])

theorem Ordered.updateValue {t : KeyTree κ α} (h : t.Ordered) (g : α → α) :
    (t.updateValue g).Ordered := by
  refine ordered_of_children ?_ fun k c hc => h.child (k := k) ?_
  · rw [children_updateValue]
    exact h [] t rfl
  · rwa [children_updateValue] at hc

theorem Ordered.updateChild {t : KeyTree κ α} (h : t.Ordered) (k : κ)
    {f : Option (KeyTree κ α) → KeyTree κ α} (hf : (f (t.children.lookup k)).Ordered) :
    (t.updateChild k f).Ordered := by
  refine ordered_of_children ?_ fun j c hc => ?_
  · cases t with
    | node v cs => exact SortedMap.sorted_insertList _ _ _ (h [] _ rfl)
  · rw [lookup_updateChild] at hc
    split at hc
    · cases hc
      exact hf
    · exact h.child hc

theorem Ordered.visit {σ : Type*} {next : σ → κ → σ} {fresh : κ → σ → α} {g : α → α}
    {ks : List κ} {s : σ} {t : KeyTree κ α} (h : t.Ordered) :
    (t.visit next fresh g ks s).Ordered := by
  induction ks generalizing s t with
  | nil => exact h.updateValue g
  | cons k ks ih =>
      apply h.updateChild
      apply ih
      cases hc : t.children.lookup k with
      | none => exact ordered_leaf _
      | some c => exact h.child hc

/-! ## The listing of a tree -/

theorem lookup_mapChildren (f : α → β) (cs : List (κ × KeyTree κ α)) (k : κ) :
    (mapChildren f cs).lookup k = (cs.lookup k).map (map f) := by
  induction cs with
  | nil => rfl
  | cons c cs ih =>
      obtain ⟨j, t⟩ := c
      rw [mapChildren, List.lookup_cons, List.lookup_cons, ih]
      split <;> rfl

theorem at?_map (f : α → β) (q : List κ) (t : KeyTree κ α) :
    (t.map f).at? q = (t.at? q).map (map f) := by
  induction q generalizing t with
  | nil => rfl
  | cons k q ih =>
      cases t with
      | node v cs =>
          rw [map, at?_cons, at?_cons, children, children, lookup_mapChildren]
          cases cs.lookup k with
          | none => rfl
          | some c => exact ih c

theorem Ordered.map {t : KeyTree κ α} (h : t.Ordered) (f : α → β) : (t.map f).Ordered := by
  intro q m hm
  rw [at?_map, Option.map_eq_some_iff] at hm
  obtain ⟨m, hm, rfl⟩ := hm
  rw [children_map, mapChildren_eq_map]
  exact List.pairwise_map.mpr (h q m hm)

theorem Ordered.mem_children {t c : KeyTree κ α} (h : t.Ordered) {k : κ} :
    (k, c) ∈ t.children ↔ t.at? [k] = some c := by
  have hlookup : t.children.lookup k = some c ↔ (k, c) ∈ t.children :=
    ⟨SortedMap.mem_of_lookup, SortedMap.lookup_of_sorted_mem (h [] t rfl)⟩
  rw [← hlookup, at?_cons]
  cases t.children.lookup k <;> rfl

mutual

theorem mem_walk {way p : List κ} {m : KeyTree κ α} (t : KeyTree κ α) (h : t.Ordered) :
    (p, m) ∈ walk way t ↔ ∃ q, p = way ++ q ∧ t.at? q = some m := by
  cases t with
  | node v cs =>
      rw [walk, List.mem_cons, mem_walkChildren cs (h [] _ rfl) fun k c hc => h.child hc]
      constructor
      · rintro (heq | ⟨k, q, hp, hq⟩)
        · cases heq
          exact ⟨[], by simp, rfl⟩
        · exact ⟨k :: q, hp, hq⟩
      · rintro ⟨q, hp, hq⟩
        cases q with
        | nil =>
            cases hq
            exact .inl (by rw [hp, List.append_nil])
        | cons k q => exact .inr ⟨k, q, hp, hq⟩

theorem mem_walkChildren {way p : List κ} {m : KeyTree κ α} (cs : List (κ × KeyTree κ α))
    (hsorted : cs.Pairwise fun a b => a.1 < b.1)
    (h : ∀ k c, cs.lookup k = some c → c.Ordered) :
    (p, m) ∈ walkChildren way cs ↔
      ∃ k q, p = way ++ k :: q ∧ (cs.lookup k).bind (at? q) = some m := by
  match cs with
  | [] => simp [walkChildren]
  | (k, c) :: cs =>
      obtain ⟨hfirst, hrest⟩ := List.pairwise_cons.mp hsorted
      have hlookup : ∀ j d, cs.lookup j = some d → ((k, c) :: cs).lookup j = some d := by
        intro j d hd
        have hne := hfirst _ (SortedMap.mem_of_lookup hd)
        rw [List.lookup_cons, beq_eq_false_iff_ne.mpr (ne_of_gt hne), hd]
      rw [walkChildren, List.mem_append, mem_walk c (h k c (by simp)),
        mem_walkChildren cs hrest fun j d hd => h j d (hlookup j d hd)]
      constructor
      · rintro (⟨q, hp, hq⟩ | ⟨j, q, hp, hq⟩)
        · exact ⟨k, q, by simp [hp], by simpa using hq⟩
        · obtain ⟨d, hd, hm⟩ := Option.bind_eq_some_iff.mp hq
          exact ⟨j, q, hp, by rw [hlookup j d hd]; exact hm⟩
      · rintro ⟨j, q, hp, hq⟩
        by_cases hj : j = k
        · subst hj
          exact .inl ⟨q, by simp [hp], by simpa using hq⟩
        · rw [List.lookup_cons, beq_eq_false_iff_ne.mpr hj] at hq
          exact .inr ⟨j, q, hp, hq⟩

end

/-- The listing of the children has all nodes but the root. -/
theorem mem_walkChildren_iff {way p : List κ} {t m : KeyTree κ α} (h : t.Ordered) :
    (p, m) ∈ walkChildren way t.children ↔ ∃ q, q ≠ [] ∧ p = way ++ q ∧ t.at? q = some m := by
  rw [mem_walkChildren t.children (h [] t rfl) fun k c hc => h.child hc]
  constructor
  · rintro ⟨k, q, hp, hq⟩
    exact ⟨k :: q, List.cons_ne_nil k q, hp, hq⟩
  · rintro ⟨q, hne, hp, hq⟩
    obtain ⟨k, q, rfl⟩ := List.exists_cons_of_ne_nil hne
    exact ⟨k, q, hp, hq⟩

mutual

/-- No node is listed after one below it, nor twice. -/
theorem pairwise_walk {way : List κ} (t : KeyTree κ α) (h : t.Ordered) :
    ((walk way t).map Prod.fst).Pairwise fun p q => ¬q <+: p := by
  cases t with
  | node v cs =>
      have hsorted := h [] _ rfl
      rw [walk, List.map_cons, List.pairwise_cons]
      refine ⟨fun p hp => ?_, pairwise_walkChildren cs hsorted fun k c hc => h.child hc⟩
      obtain ⟨⟨_, m⟩, hpm, rfl⟩ := List.mem_map.mp hp
      obtain ⟨k, q, hq, _⟩ := (mem_walkChildren cs hsorted fun k c hc => h.child hc).mp hpm
      intro hpre
      have hlength := hpre.length_le
      simp only [hq, List.length_append, List.length_cons] at hlength
      omega

theorem pairwise_walkChildren {way : List κ} (cs : List (κ × KeyTree κ α))
    (hsorted : cs.Pairwise fun a b => a.1 < b.1)
    (h : ∀ k c, cs.lookup k = some c → c.Ordered) :
    ((walkChildren way cs).map Prod.fst).Pairwise fun p q => ¬q <+: p := by
  match cs with
  | [] => exact .nil
  | (k, c) :: cs =>
      obtain ⟨hfirst, hrest⟩ := List.pairwise_cons.mp hsorted
      have hc : c.Ordered := h k c (by simp)
      have hcs : ∀ j d, cs.lookup j = some d → d.Ordered := by
        intro j d hd
        have hne := hfirst _ (SortedMap.mem_of_lookup hd)
        exact h j d (by rw [List.lookup_cons, beq_eq_false_iff_ne.mpr (ne_of_gt hne), hd])
      rw [walkChildren, List.map_append, List.pairwise_append]
      refine ⟨pairwise_walk c hc, pairwise_walkChildren cs hrest hcs, ?_⟩
      intro p hp p' hp' hpre
      obtain ⟨⟨_, m⟩, hpm, rfl⟩ := List.mem_map.mp hp
      obtain ⟨⟨_, m'⟩, hpm', rfl⟩ := List.mem_map.mp hp'
      obtain ⟨q, hq, _⟩ := (mem_walk c hc).mp hpm
      obtain ⟨j, q', hq', hm'⟩ := (mem_walkChildren cs hrest hcs).mp hpm'
      obtain ⟨d, hd, _⟩ := Option.bind_eq_some_iff.mp hm'
      have hlt := hfirst _ (SortedMap.mem_of_lookup hd)
      simp only [hq, hq', List.append_assoc, List.prefix_append_right_inj, List.singleton_append,
        List.cons_prefix_cons] at hpre
      exact absurd hpre.1 (ne_of_gt hlt)

end

theorem nodup_walk {way : List κ} {t : KeyTree κ α} (h : t.Ordered) :
    ((walk way t).map Prod.fst).Nodup := by
  refine (pairwise_walk t h).imp ?_
  rintro p _ hnot rfl
  exact hnot List.prefix_rfl

end Lookup

end KeyTree
