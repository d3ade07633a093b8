import K6Rs.Verification.Html.Fragments

/-! # What a selection finds

The places of what is found, and the objects that the script gets for them. -/

namespace K6Rs

open JsonTree

variable {lib : HtmlLib} {selector : Str} {doc el : HtmlTree} {path : HtmlPath}

section Find

variable (selection : List (SelectedElement lib doc)) (selector : Str)

/-- The places of what is found, in its order. -/
def foundPlaces : List (Option HtmlPath) :=
  selection.flatMap fun e => (lib.select e.el.wrapped selector).map e.place

/-- The path leads to an element that is below a selected one. -/
def IsBelow (path : HtmlPath) : Prop :=
  ∃ e ∈ selection, ∃ q ∈ e.el.descendantPaths, path = e.path ++ q

/-- A value is the object of the element at a place of the document. -/
def IsValueAt (lib : HtmlLib) (doc : HtmlTree) (v : JsonTree) (place : Option HtmlPath) : Prop :=
  ∃ path el, place = some path ∧ doc.nodeAt path = some el ∧ IsValueOf v (lib.record el)

/-- What is returned are the objects of exactly the matching elements below the selected ones, of
each of them once. -/
structure FindsDescendants : Prop where
  values : ∃ found, lib.find selector (selectedValues selection) = some found ∧
    List.Forall₂ (IsValueAt lib doc) found (foundPlaces selection selector)
  exact : ∀ path, some path ∈ foundPlaces selection selector ↔
    IsBelow selection path ∧ lib.matchesAt doc selector path = true
  once : (foundPlaces selection selector).Nodup

/-- No name of an attribute must be escaped, or stands twice. -/
def PlainAttrs (record : HtmlRecord) : Prop :=
  (record.attrs.map Prod.fst).Nodup ∧ ∀ attr ∈ record.attrs, IsPlainText attr.1

/-- What matches below the selected elements in the document matches in the fragment of just one
of them, and nothing else matches in any. -/
structure MatchesOnce : Prop where
  around : ∀ e ∈ selection, lib.matchesAt e.el.wrapped selector [] = false
  wanted : ∀ path, IsBelow selection path → lib.matchesAt doc selector path = true →
    (selection.countP fun e => e.matchesInFragment selector path) = 1
  unwanted : ∀ e ∈ selection, ∀ path, e.matchesInFragment selector path = true →
    IsBelow selection path ∧ lib.matchesAt doc selector path = true

end Find

namespace SelectedElement

variable {e : SelectedElement lib doc}

theorem map_place_select (e : SelectedElement lib doc) (selector : Str) :
    (lib.select e.el.wrapped selector).map e.place =
      (if lib.matchesAt e.el.wrapped selector [] = true then [none] else []) ++
        (e.el.elementPaths.filter fun q => lib.matchesAt e.el.wrapped selector (0 :: q)).map
          fun q => some (e.path ++ q) := by
  have hpaths : e.el.wrapped.elementPaths = [] :: e.el.elementPaths.map (0 :: ·) := by
    rw [HtmlTree.elementPaths_wrapped e.isElement, HtmlTree.elementPaths_eq_cons e.isElement]
    rfl
  rw [HtmlLib.select_eq_filter, hpaths, List.filter_cons, List.filter_map]
  split <;> simp [place, Function.comp_def]

theorem count_map_place (e : SelectedElement lib doc) (selector : Str) (path : HtmlPath) :
    ((lib.select e.el.wrapped selector).map e.place).count (some path) =
      if e.matchesInFragment selector path = true then 1 else 0 := by
  have hnodup : ((e.el.elementPaths.filter fun q =>
      lib.matchesAt e.el.wrapped selector (0 :: q)).map fun q => some (e.path ++ q)).Nodup :=
    ((HtmlTree.nodup_elementPaths e.el).filter _).map fun q q' h =>
      List.append_cancel_left (Option.some.inj h)
  have hmem : some path ∈ ((e.el.elementPaths.filter fun q =>
      lib.matchesAt e.el.wrapped selector (0 :: q)).map fun q => some (e.path ++ q)) ↔
        e.matchesInFragment selector path = true := by
    simp only [List.mem_map, List.mem_filter, matchesInFragment, List.any_eq_true,
      Bool.and_eq_true, decide_eq_true_eq, Option.some.injEq]
    exact exists_congr fun q => by tauto
  rw [map_place_select, List.count_append, hnodup.count]
  simp only [hmem]
  split <;> simp

theorem none_mem_map_place (e : SelectedElement lib doc) (selector : Str) :
    none ∈ (lib.select e.el.wrapped selector).map e.place ↔
      lib.matchesAt e.el.wrapped selector [] = true := by
  rw [map_place_select, List.mem_append]
  split <;> simp_all

end SelectedElement

section Find

variable {selection : List (SelectedElement lib doc)}

theorem count_foundPlaces (selection : List (SelectedElement lib doc)) (selector : Str)
    (path : HtmlPath) :
    (foundPlaces selection selector).count (some path) =
      selection.countP fun e => e.matchesInFragment selector path := by
  induction selection with
  | nil => rfl
  | cons e rest ih =>
      rw [foundPlaces] at ih ⊢
      rw [List.flatMap_cons, List.count_append, ih, e.count_map_place, List.countP_cons,
        Nat.add_comm]

theorem none_mem_foundPlaces : none ∈ foundPlaces selection selector ↔
    ∃ e ∈ selection, lib.matchesAt e.el.wrapped selector [] = true := by
  simp only [foundPlaces, List.mem_flatMap, SelectedElement.none_mem_map_place]

theorem some_mem_foundPlaces : some path ∈ foundPlaces selection selector ↔
    ∃ e ∈ selection, e.matchesInFragment selector path = true := by
  rw [← List.count_pos_iff, count_foundPlaces, List.countP_pos_iff]

/-- The places are those of the matching elements below the selection, each of them once. -/
theorem matchesOnce_iff : MatchesOnce selection selector ↔
    none ∉ foundPlaces selection selector ∧
      (∀ path, some path ∈ foundPlaces selection selector ↔
        IsBelow selection path ∧ lib.matchesAt doc selector path = true) ∧
      (foundPlaces selection selector).Nodup := by
  constructor
  · intro h
    have hnone : none ∉ foundPlaces selection selector := by
      rw [none_mem_foundPlaces]
      rintro ⟨e, he, hmatch⟩
      rw [h.around e he] at hmatch
      cases hmatch
    refine ⟨hnone, fun path => ⟨fun hmem => ?_, fun hwanted => ?_⟩, ?_⟩
    · obtain ⟨e, he, hmatch⟩ := some_mem_foundPlaces.mp hmem
      exact h.unwanted e he path hmatch
    · rw [← List.count_pos_iff, count_foundPlaces, h.wanted path hwanted.1 hwanted.2]
      exact Nat.one_pos
    · rw [List.nodup_iff_count_le_one]
      rintro (_ | path)
      · rw [List.count_eq_zero.mpr hnone]
        exact Nat.zero_le 1
      · rw [count_foundPlaces]
        by_cases hwanted : IsBelow selection path ∧ lib.matchesAt doc selector path = true
        · exact (h.wanted path hwanted.1 hwanted.2).le
        · rw [List.countP_eq_zero.mpr fun e he hmatch => hwanted (h.unwanted e he path hmatch)]
          exact Nat.zero_le 1
  · rintro ⟨hnone, hexact, honce⟩
    refine ⟨fun e he => ?_, fun path hbelow hmatch => ?_, fun e he path hmatch => ?_⟩
    · rw [Bool.eq_false_iff]
      exact fun hmatch => hnone (none_mem_foundPlaces.mpr ⟨e, he, hmatch⟩)
    · rw [← count_foundPlaces]
      exact List.count_eq_one_of_mem honce ((hexact path).mpr ⟨hbelow, hmatch⟩)
    · exact (hexact path).mp (some_mem_foundPlaces.mpr ⟨e, he, hmatch⟩)

theorem forall₂_comp {α β γ : Type*} {R : α → β → Prop} {S : γ → β → Prop} {T : α → γ → Prop}
    (hT : ∀ a b c, R a b → S c b → T a c) {as : List α} {bs : List β} {cs : List γ}
    (hR : List.Forall₂ R as bs) (hS : List.Forall₂ S cs bs) : List.Forall₂ T as cs := by
  induction hR generalizing cs with
  | nil =>
      cases hS
      exact .nil
  | cons hab _ ih =>
      cases hS with
      | cons hcb hS => exact .cons (hT _ _ _ hab hcb) (ih hS)

/-- A record is that of the element at a place of the document. -/
def IsRecordAt (lib : HtmlLib) (doc : HtmlTree) (record : HtmlRecord) (place : Option HtmlPath) :
    Prop :=
  ∃ path el, place = some path ∧ doc.nodeAt path = some el ∧ record = lib.record el

theorem recordsAt_places {e : SelectedElement lib doc} {paths : List HtmlPath}
    (hpaths : ∀ p ∈ paths, p ∈ e.el.wrapped.elementPaths ∧ p ≠ []) :
    List.Forall₂ (IsRecordAt lib doc) (lib.recordsAt e.el.wrapped paths) (paths.map e.place) := by
  induction paths with
  | nil => exact .nil
  | cons p paths ih =>
      rw [List.forall_mem_cons] at hpaths
      obtain ⟨⟨hp, hne⟩, hrest⟩ := hpaths
      obtain ⟨el, hnode, -⟩ := HtmlTree.exists_nodeAt_of_mem _ p hp
      rw [HtmlTree.elementPaths_wrapped e.isElement, List.mem_cons, or_iff_right hne] at hp
      obtain ⟨q, rfl⟩ : ∃ q, p = 0 :: q := by
        rcases List.mem_cons.mp hp with rfl | hp
        · exact ⟨[], rfl⟩
        · obtain ⟨q, -, rfl⟩ := List.mem_map.mp hp
          exact ⟨q, rfl⟩
      have hplace : doc.nodeAt (e.path ++ q) = some el := by
        rw [HtmlTree.nodeAt_append e.node, ← HtmlTree.nodeAt_wrapped, hnode]
      rw [HtmlLib.recordsAt, List.filterMap_cons_some (by rw [hnode]; rfl), List.map_cons]
      exact .cons ⟨_, _, rfl, hplace, rfl⟩ (ih hrest)

/-- The records that are found are those of the elements at the places. -/
theorem foundRecords_places (hnone : none ∉ foundPlaces selection selector) :
    List.Forall₂ (IsRecordAt lib doc)
      (selection.map fun e => e.foundRecords selector).flatten
        (foundPlaces selection selector) := by
  induction selection with
  | nil => exact .nil
  | cons e rest ih =>
      rw [foundPlaces, List.flatMap_cons, List.mem_append, not_or] at hnone
      rw [List.map_cons, List.flatten_cons, foundPlaces, List.flatMap_cons]
      refine List.rel_append (recordsAt_places fun p hp => ⟨?_, ?_⟩) (ih hnone.2)
      · rw [HtmlLib.select_eq_filter] at hp
        exact (List.mem_filter.mp hp).1
      · rintro rfl
        exact hnone.1 (List.mem_map.mpr ⟨[], hp, rfl⟩)

/-- The text for what is found is read as its elements exactly where the names are plain. -/
theorem find_values_iff (hparse : Reparses selection) :
    (∃ found, lib.find selector (selectedValues selection) = some found ∧
      List.Forall₂ IsValueOf found
        (selection.map fun e => e.foundRecords selector).flatten) ↔
      ∀ e ∈ selection, ∀ record ∈ e.foundRecords selector, PlainAttrs record := by
  have hall : (∀ e ∈ selection, ∀ record ∈ e.foundRecords selector, PlainAttrs record) ↔
      ∀ record ∈ (selection.map fun e => e.foundRecords selector).flatten, PlainAttrs record := by
    simp only [List.mem_flatten, List.mem_map]
    aesop
  rw [hall]
  constructor
  · rintro ⟨found, hfound, hvalues⟩ record hrecord
    obtain ⟨itemss, htexts, rfl⟩ := (find_eq_some_iff hparse).mp hfound
    obtain ⟨v, -, members, -, hdecodes⟩ := List.exists_mem_of_forall₂ hvalues.flip hrecord
    exact ⟨nodup_of_decodesTo hdecodes,
      isPlainText_of_readsTexts htexts hvalues record hrecord⟩
  · intro hplain
    let itemss := (selection.map fun e => e.foundRecords selector).map (List.map recordTree)
    refine ⟨itemss.flatten, (find_eq_some_iff hparse).mpr ⟨itemss, ?_, rfl⟩, ?_⟩
    · rw [List.forall₂_map_right_iff, List.forall₂_same]
      intro records hrecords
      exact readsText_recordsJson fun record hrecord =>
        (hplain record (List.mem_flatten_of_mem hrecords hrecord)).2
    · rw [← List.map_flatten, List.forall₂_map_left_iff, List.forall₂_same]
      exact fun record hrecord => isValueOf_recordTree (hplain record hrecord).1

/-- `find` is right exactly where the names of what it finds are plain, and matches in the
fragments are matches in the document, each in one of them. -/
theorem findsDescendants_iff (hparse : Reparses selection) :
    FindsDescendants selection selector ↔
      (∀ e ∈ selection, ∀ record ∈ e.foundRecords selector, PlainAttrs record) ∧
        MatchesOnce selection selector := by
  rw [matchesOnce_iff, ← find_values_iff hparse]
  constructor
  · rintro ⟨⟨found, hfound, hvalues⟩, hexact, honce⟩
    have hnone : none ∉ foundPlaces selection selector := by
      intro hmem
      obtain ⟨v, -, path, el, h, -⟩ := List.exists_mem_of_forall₂ hvalues.flip hmem
      cases h
    refine ⟨⟨found, hfound, ?_⟩, hnone, hexact, honce⟩
    refine forall₂_comp (fun v place record hv hrecord => ?_) hvalues (foundRecords_places hnone)
    obtain ⟨path, el, rfl, hnode, hvalue⟩ := hv
    obtain ⟨_, _, ⟨⟩, hnode', rfl⟩ := hrecord
    rw [hnode] at hnode'
    cases hnode'
    exact hvalue
  · rintro ⟨⟨found, hfound, hvalues⟩, hnone, hexact, honce⟩
    refine ⟨⟨found, hfound, ?_⟩, hexact, honce⟩
    refine forall₂_comp (fun v record place hv hrecord => ?_) hvalues
      (foundRecords_places hnone).flip
    obtain ⟨path, el, hplace, hnode, rfl⟩ := hrecord
    exact ⟨path, el, hplace, hnode, hv⟩

end Find

end K6Rs
