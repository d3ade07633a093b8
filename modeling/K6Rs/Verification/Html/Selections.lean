import K6Rs.Verification.Html.Find

/-! # What a selection keeps and accepts

An element is kept and accepted for whatever matches in its fragment. With what it finds, this
says when a selection is right. -/

namespace K6Rs

open JsonTree

variable {lib : HtmlLib} {selector : Str} {doc el : HtmlTree} {path : HtmlPath}

/-! ## What is kept and accepted -/

/-- Exactly the matching elements are kept. -/
def KeepsMatching (selection : List (SelectedElement lib doc)) (selector : Str) : Prop :=
  lib.filter selector (selectedValues selection) =
    some (selectedValues (selection.filter fun e => lib.matchesAt doc selector e.path))

/-- A selection is accepted exactly when one of its elements matches. -/
def AcceptsMatching (selection : List (SelectedElement lib doc)) (selector : Str) : Prop :=
  lib.is selector (selectedValues selection) =
    some (selection.any fun e => lib.matchesAt doc selector e.path)

namespace SelectedElement

variable {e : SelectedElement lib doc}

/-- Something is found by the element. -/
def touches (e : SelectedElement lib doc) (selector : Str) : Bool :=
  !(e.foundRecords selector).isEmpty

theorem touches_iff : e.touches selector = true ↔ lib.TouchesFragment e.el selector := by
  rw [← foundRecords_ne_nil_iff, touches]
  simp

theorem isReadable_of_not_touches (h : e.touches selector = false) : e.IsReadable selector := by
  have hnil : e.foundRecords selector = [] := by simpa [touches] using h
  rw [IsReadable, hnil]
  exact ⟨_, readsText_recordsJson (List.forall_mem_nil _)⟩

theorem findInElement_eq_some_iff
    (hparse : lib.parseFragment (lib.outerHtml e.el) = e.el.wrapped) {items : List JsonTree} :
    lib.findInElement e.value selector = some items ↔
      ReadsText (recordsJson (e.foundRecords selector)) (.array items) := by
  rw [findInElement_value hparse, parseRecords_eq_some_iff]

theorem exists_found (hparse : lib.parseFragment (lib.outerHtml e.el) = e.el.wrapped)
    (h : e.IsReadable selector) : ∃ items, lib.findInElement e.value selector = some items ∧
      decide (0 < items.length) = e.touches selector := by
  obtain ⟨v, htext⟩ := h
  obtain ⟨items, rfl⟩ := readsText_array htext
  refine ⟨items, (findInElement_eq_some_iff hparse).mpr htext, ?_⟩
  have hnil := items_eq_nil_iff htext
  cases items with
  | nil => simp [touches, hnil.mp rfl]
  | cons item items =>
      have hne : e.foundRecords selector ≠ [] := fun h => by cases hnil.mpr h
      simp [touches, hne]

theorem isReadable_of_found (hparse : lib.parseFragment (lib.outerHtml e.el) = e.el.wrapped)
    {items : List JsonTree} (h : lib.findInElement e.value selector = some items) :
    e.IsReadable selector := ⟨_, (findInElement_eq_some_iff hparse).mp h⟩

theorem touches_eq_of_value {e e' : SelectedElement lib doc}
    (hparse : lib.parseFragment (lib.outerHtml e.el) = e.el.wrapped)
    (hparse' : lib.parseFragment (lib.outerHtml e'.el) = e'.el.wrapped)
    (h : e.value = e'.value) : e.touches selector = e'.touches selector := by
  obtain ⟨members, hvalue, hdecodes⟩ := e.isRecord
  obtain ⟨members', hvalue', hdecodes'⟩ := e'.isRecord
  rw [h, hvalue'] at hvalue
  cases hvalue
  have houter : lib.outerHtml e.el = lib.outerHtml e'.el :=
    JsonTree.string.inj (Option.some.inj (hdecodes.outerHtml.symm.trans hdecodes'.outerHtml))
  have hwrapped : e.el.wrapped = e'.el.wrapped := by rw [← hparse, houter, hparse']
  rw [touches, touches, foundRecords, foundRecords, hwrapped]

end SelectedElement

section Filter

variable {selection : List (SelectedElement lib doc)}

theorem filter_eq_some_iff (hparse : Reparses selection) {kept : List JsonTree} :
    lib.filter selector (selectedValues selection) = some kept ↔
      (∀ e ∈ selection, e.IsReadable selector) ∧
        kept = selectedValues (selection.filter fun e => e.touches selector) := by
  induction selection generalizing kept with
  | nil =>
      rw [selectedValues, List.map_nil, HtmlLib.filter]
      simp [selectedValues, eq_comm]
  | cons e rest ih =>
      rw [Reparses, List.forall_mem_cons] at hparse
      rw [selectedValues, List.map_cons, HtmlLib.filter, List.forall_mem_cons]
      simp only [Option.bind_eq_bind, Option.bind_eq_some_iff]
      constructor
      · rintro ⟨items, hitems, results, hresults, h⟩
        have hreadable := SelectedElement.isReadable_of_found hparse.1 hitems
        obtain ⟨items', hitems', htouches⟩ := SelectedElement.exists_found hparse.1 hreadable
        rw [hitems] at hitems'
        cases hitems'
        obtain ⟨hrest, rfl⟩ := (ih hparse.2).mp hresults
        refine ⟨⟨hreadable, hrest⟩, ?_⟩
        cases h
        rw [List.filter_cons, ← htouches]
        by_cases hpos : 0 < items.length <;> simp [hpos, selectedValues]
      · rintro ⟨⟨hreadable, hrest⟩, rfl⟩
        obtain ⟨items, hitems, htouches⟩ := SelectedElement.exists_found hparse.1 hreadable
        refine ⟨items, hitems, _, (ih hparse.2).mpr ⟨hrest, rfl⟩, ?_⟩
        rw [List.filter_cons, ← htouches]
        by_cases hpos : 0 < items.length <;> simp [hpos, selectedValues]

/-- Two ways to filter a list agree where their images do, when one of them tells no elements
with one image apart. -/
theorem filter_eq_of_map_eq {α β : Type*} {l : List α} {f : α → β} {p q : α → Bool}
    (hp : ∀ a ∈ l, ∀ b ∈ l, f a = f b → p a = p b)
    (h : (l.filter p).map f = (l.filter q).map f) : ∀ a ∈ l, p a = q a := by
  classical
  intro a ha
  have hcount : l.countP (fun b => decide (f b = f a) && p b) =
      l.countP (fun b => decide (f b = f a) && q b) := by
    have heq := congrArg (List.countP fun c => decide (c = f a)) h
    simpa [List.countP_map, List.countP_filter, Function.comp_def] using heq
  cases hpa : p a with
  | true =>
      have hall : l.countP (fun b => decide (f b = f a) && p b) =
          l.countP fun b => decide (f b = f a) := by
        refine List.countP_congr fun b hb => ?_
        by_cases hfb : f b = f a
        · simp [hfb, hp b hb a ha hfb, hpa]
        · simp [hfb]
      have hlength : (l.filter fun b => decide (f b = f a)).countP q =
          (l.filter fun b => decide (f b = f a)).length := by
        rw [List.countP_filter, ← List.countP_eq_length_filter, ← hall, hcount]
        simp [Bool.and_comm]
      exact (List.countP_eq_length.mp hlength a (by simp [ha])).symm
  | false =>
      have hnone : l.countP (fun b => decide (f b = f a) && p b) = 0 := by
        rw [List.countP_eq_zero]
        intro b hb hfb
        simp only [Bool.and_eq_true, decide_eq_true_eq] at hfb
        rw [hp b hb a ha hfb.1, hpa] at hfb
        exact absurd hfb.2 (by decide)
      rw [hcount, List.countP_eq_zero] at hnone
      have hqa := hnone a ha
      simpa using hqa

/-- `filter` is right exactly where the texts are JSON, and every selected element matches just
where something in its fragment does. -/
theorem keepsMatching_iff (hparse : Reparses selection) :
    KeepsMatching selection selector ↔ ∀ e ∈ selection, e.IsReadable selector ∧
      (lib.matchesAt doc selector e.path = true ↔ lib.TouchesFragment e.el selector) := by
  rw [KeepsMatching, filter_eq_some_iff hparse, selectedValues, selectedValues]
  constructor
  · rintro ⟨hreadable, heq⟩ e he
    refine ⟨hreadable e he, ?_⟩
    have hsame := filter_eq_of_map_eq (fun a ha b hb h =>
      SelectedElement.touches_eq_of_value (hparse a ha) (hparse b hb) h) heq.symm e he
    rw [← SelectedElement.touches_iff, hsame]
  · intro h
    refine ⟨fun e he => (h e he).1, ?_⟩
    rw [List.filter_congr fun e he => ?_]
    rw [Bool.eq_iff_iff, SelectedElement.touches_iff]
    exact (h e he).2

/-- The elements by which nothing is found are passed over. -/
theorem is_append {before rest : List (SelectedElement lib doc)}
    (hparse : Reparses (before ++ rest)) (hbefore : ∀ e ∈ before, e.touches selector = false) :
    lib.is selector (selectedValues (before ++ rest)) = lib.is selector (selectedValues rest) := by
  induction before with
  | nil => rfl
  | cons e before ih =>
      rw [Reparses, List.cons_append, List.forall_mem_cons] at hparse
      rw [List.forall_mem_cons] at hbefore
      obtain ⟨items, hitems, htouches⟩ := SelectedElement.exists_found hparse.1
        (SelectedElement.isReadable_of_not_touches hbefore.1)
      rw [hbefore.1, decide_eq_false_iff_not] at htouches
      rw [← ih hparse.2 hbefore.2, List.cons_append, selectedValues, List.map_cons, HtmlLib.is,
        hitems]
      simp only [Option.bind_eq_bind, Option.bind_some, if_neg htouches]
      rfl

theorem is_of_touches {before after : List (SelectedElement lib doc)} {e : SelectedElement lib doc}
    (hparse : Reparses (before ++ e :: after))
    (hbefore : ∀ e' ∈ before, e'.touches selector = false) (htouches : e.touches selector = true) :
    (e.IsReadable selector → lib.is selector (selectedValues (before ++ e :: after)) = some true) ∧
      (¬e.IsReadable selector → lib.is selector (selectedValues (before ++ e :: after)) =
        none) := by
  have hown := hparse e (by simp)
  rw [is_append hparse hbefore, selectedValues, List.map_cons, HtmlLib.is]
  constructor
  · intro hreadable
    obtain ⟨items, hitems, hpos⟩ := SelectedElement.exists_found hown hreadable
    rw [htouches, decide_eq_true_iff] at hpos
    simp [hitems, hpos]
  · intro hreadable
    cases hitems : lib.findInElement e.value selector with
    | none => rfl
    | some items => exact absurd (SelectedElement.isReadable_of_found hown hitems) hreadable

/-- `is` is right exactly where the text for the first element by which something is found is
JSON, and a selected element matches just where something does in a fragment. -/
theorem acceptsMatching_iff (hparse : Reparses selection) :
    AcceptsMatching selection selector ↔
      (∀ before e after, selection = before ++ e :: after →
        (∀ e' ∈ before, ¬lib.TouchesFragment e'.el selector) → e.IsReadable selector) ∧
      ((∃ e ∈ selection, lib.matchesAt doc selector e.path = true) ↔
        ∃ e ∈ selection, lib.TouchesFragment e.el selector) := by
  simp only [← SelectedElement.touches_iff, Bool.not_eq_true]
  rw [AcceptsMatching]
  by_cases hany : ∃ e ∈ selection, e.touches selector = true
  · obtain ⟨e, he⟩ := Option.isSome_iff_exists.mp (List.find?_isSome.mpr hany)
    obtain ⟨htouches, before, after, rfl, hbefore⟩ := List.find?_eq_some_iff_append.mp he
    have hfirst : ∀ e' ∈ before, e'.touches selector = false := fun e' he' => by
      simpa using hbefore e' he'
    have hresult := is_of_touches hparse hfirst htouches
    rw [iff_true_right hany, ← List.any_eq_true]
    constructor
    · intro h
      have hreadable : e.IsReadable selector := by
        by_contra hnot
        rw [hresult.2 hnot] at h
        cases h
      rw [hresult.1 hreadable] at h
      refine ⟨fun before' e' after' heq hbefore' => ?_, (Option.some.inj h).symm⟩
      cases htouches' : e'.touches selector with
      | false => exact SelectedElement.isReadable_of_not_touches htouches'
      | true =>
          by_contra hnot
          have hnone := (is_of_touches (heq ▸ hparse) hbefore' htouches').2 hnot
          rw [← heq, hresult.1 hreadable] at hnone
          cases hnone
    · rintro ⟨hreadable, hmatch⟩
      rw [hresult.1 (hreadable before e after rfl hfirst), hmatch]
  · have hnone : ∀ e ∈ selection, e.touches selector = false := by
      simpa only [not_exists, not_and, Bool.not_eq_true] using hany
    have hresult : lib.is selector (selectedValues selection) = some false := by
      have happend : lib.is selector (selectedValues (selection ++ [])) =
          lib.is selector (selectedValues []) :=
        is_append (by rwa [List.append_nil]) hnone
      rw [List.append_nil] at happend
      exact happend
    rw [hresult, iff_false_right hany, ← List.any_eq_true, Bool.not_eq_true, Option.some.injEq,
      eq_comm]
    refine (and_iff_right fun before e after heq _ => ?_).symm
    exact SelectedElement.isReadable_of_not_touches (hnone e (by simp [heq]))

end Filter

/-! ## The first selection of a document -/

/-- The objects in the text are those of the records exactly where the names are plain. -/
theorem parseRecords_values_iff {records : List HtmlRecord} :
    (∃ items, parseRecords records = some items ∧ List.Forall₂ IsValueOf items records) ↔
      ∀ record ∈ records, PlainAttrs record := by
  constructor
  · rintro ⟨items, hitems, hvalues⟩ record hrecord
    obtain ⟨v, -, members, -, hdecodes⟩ := List.exists_mem_of_forall₂ hvalues.flip hrecord
    refine ⟨nodup_of_decodesTo hdecodes, ?_⟩
    exact isPlainText_of_readsTexts (.cons (parseRecords_eq_some_iff.mp hitems) .nil)
      (by simpa using hvalues) record (by simpa using hrecord)
  · intro hplain
    refine ⟨records.map recordTree, parseRecords_eq_some_iff.mpr ?_, ?_⟩
    · exact readsText_recordsJson fun record hrecord => (hplain record hrecord).2
    · rw [List.forall₂_map_left_iff, List.forall₂_same]
      exact fun record hrecord => isValueOf_recordTree (hplain record hrecord).1

/-- The selection that `parseHTML` returns is that of the root element, and what its `find`
returns are the objects of exactly the matching elements below the root, of each of them once. -/
structure FindsInDocument (lib : HtmlLib) (html selector : Str) : Prop where
  root : ∃ v, lib.parseHtml html = some [v] ∧ IsValueOf v (lib.record (lib.parseDocument html))
  values : ∃ found, lib.findInDocument html selector = some found ∧
    List.Forall₂ (fun v path => IsValueAt lib (lib.parseDocument html) v (some path)) found
      (lib.select (lib.parseDocument html) selector)
  exact : ∀ path, path ∈ lib.select (lib.parseDocument html) selector ↔
    path ∈ (lib.parseDocument html).descendantPaths ∧
      lib.matchesAt (lib.parseDocument html) selector path = true
  once : (lib.select (lib.parseDocument html) selector).Nodup

theorem recordsAt_select (lib : HtmlLib) (doc : HtmlTree) (selector : Str) :
    List.Forall₂ (fun record path => IsRecordAt lib doc record (some path))
      (lib.recordsAt doc (lib.select doc selector)) (lib.select doc selector) := by
  have hmem : ∀ path ∈ lib.select doc selector, path ∈ doc.elementPaths := by
    rw [HtmlLib.select_eq_filter]
    exact fun path hpath => (List.mem_filter.mp hpath).1
  generalize lib.select doc selector = paths at hmem ⊢
  induction paths with
  | nil => exact .nil
  | cons path paths ih =>
      rw [List.forall_mem_cons] at hmem
      obtain ⟨el, hnode, -⟩ := HtmlTree.exists_nodeAt_of_mem _ path hmem.1
      rw [HtmlLib.recordsAt, List.filterMap_cons_some (by rw [hnode]; rfl)]
      exact .cons ⟨path, el, rfl, hnode, rfl⟩ (ih hmem.2)

theorem mem_select_root_iff (hdoc : doc.isElement = true) :
    (∀ path, path ∈ lib.select doc selector ↔
        path ∈ doc.descendantPaths ∧ lib.matchesAt doc selector path = true) ↔
      lib.matchesAt doc selector [] = false := by
  simp only [HtmlLib.select_eq_filter, HtmlTree.elementPaths_eq_cons hdoc, List.mem_filter,
    List.mem_cons]
  constructor
  · intro h
    rw [Bool.eq_false_iff]
    intro hmatch
    exact doc.nil_notMem_descendantPaths ((h []).mp ⟨.inl rfl, hmatch⟩).1
  · intro h path
    refine and_congr_left fun hmatch => or_iff_right ?_
    rintro rfl
    rw [h] at hmatch
    cases hmatch

theorem findsInDocument_iff {html : Str} (hroot : (lib.parseDocument html).isElement = true) :
    FindsInDocument lib html selector ↔
      (∀ record ∈ lib.htmlRootElements html ++ lib.htmlFind html selector, PlainAttrs record) ∧
        lib.matchesAt (lib.parseDocument html) selector [] = false := by
  have hone : (∃ v, lib.parseHtml html = some [v] ∧
      IsValueOf v (lib.record (lib.parseDocument html))) ↔
        ∀ record ∈ lib.htmlRootElements html, PlainAttrs record := by
    rw [← parseRecords_values_iff]
    constructor
    · rintro ⟨v, hv, hvalue⟩
      exact ⟨[v], hv, .cons hvalue .nil⟩
    · rintro ⟨_, hitems, hvalues⟩
      cases hvalues with
      | cons hvalue hvalues =>
          cases hvalues
          exact ⟨_, hitems, hvalue⟩
  have hplaces := recordsAt_select lib (lib.parseDocument html) selector
  rw [List.forall_mem_append, ← hone, ← mem_select_root_iff hroot, ← parseRecords_values_iff]
  constructor
  · rintro ⟨hv, ⟨found, hfound, hvalues⟩, hexact, -⟩
    refine ⟨⟨hv, found, hfound, ?_⟩, hexact⟩
    refine forall₂_comp (fun v path record hvalue hrecord => ?_) hvalues hplaces
    obtain ⟨_, el, ⟨⟩, hnode, hvalue⟩ := hvalue
    obtain ⟨_, _, ⟨⟩, hnode', rfl⟩ := hrecord
    rw [hnode] at hnode'
    cases hnode'
    exact hvalue
  · rintro ⟨⟨hv, found, hfound, hvalues⟩, hexact⟩
    refine ⟨hv, ⟨found, hfound, ?_⟩, hexact, ?_⟩
    · refine forall₂_comp (fun v record path hvalue hrecord => ?_) hvalues hplaces.flip
      obtain ⟨_, el, ⟨⟩, hnode, rfl⟩ := hrecord
      exact ⟨path, el, rfl, hnode, hvalue⟩
    · rw [HtmlLib.select_eq_filter]
      exact (HtmlTree.nodup_elementPaths _).filter _

/-! ## All together -/

/-- What is found, kept and accepted is right exactly where the JSON text can be read, and the
elements match in the fragments as they do in the document. -/
theorem selection_iff {selection : List (SelectedElement lib doc)} (hparse : Reparses selection)
    {html : Str} (hroot : (lib.parseDocument html).isElement = true) (selector : Str) :
    (FindsDescendants selection selector ↔
        (∀ e ∈ selection, ∀ record ∈ e.foundRecords selector, PlainAttrs record) ∧
          MatchesOnce selection selector) ∧
      (KeepsMatching selection selector ↔ ∀ e ∈ selection, e.IsReadable selector ∧
        (lib.matchesAt doc selector e.path = true ↔ lib.TouchesFragment e.el selector)) ∧
      (AcceptsMatching selection selector ↔
        (∀ before e after, selection = before ++ e :: after →
          (∀ e' ∈ before, ¬lib.TouchesFragment e'.el selector) → e.IsReadable selector) ∧
        ((∃ e ∈ selection, lib.matchesAt doc selector e.path = true) ↔
          ∃ e ∈ selection, lib.TouchesFragment e.el selector)) ∧
      (FindsInDocument lib html selector ↔
        (∀ record ∈ lib.htmlRootElements html ++ lib.htmlFind html selector, PlainAttrs record) ∧
          lib.matchesAt (lib.parseDocument html) selector [] = false) :=
  ⟨findsDescendants_iff hparse, keepsMatching_iff hparse, acceptsMatching_iff hparse,
    findsInDocument_iff hroot⟩

/-- In its fragment neither the element nor the one around it matches, and what is below it
matches there as in the document. -/
structure MatchesBelow (e : SelectedElement lib doc) (selector : Str) : Prop where
  around : lib.matchesAt e.el.wrapped selector [] = false
  self : lib.matchesAt e.el.wrapped selector [0] = false
  below : ∀ q ∈ e.el.descendantPaths,
    lib.matchesAt e.el.wrapped selector (0 :: q) = lib.matchesAt doc selector (e.path ++ q)

/-- For one selected element, matches in its fragment are to be those below it. -/
theorem matchesOnce_singleton {e : SelectedElement lib doc} :
    MatchesOnce [e] selector ↔ MatchesBelow e selector := by
  have hbelow : ∀ path, IsBelow [e] path ↔ ∃ q ∈ e.el.descendantPaths, path = e.path ++ q := by
    intro path
    simp [IsBelow]
  have hfragment : ∀ q, q ∈ e.el.elementPaths →
      (e.matchesInFragment selector (e.path ++ q) = true ↔
        lib.matchesAt e.el.wrapped selector (0 :: q) = true) := by
    intro q hq
    simp [SelectedElement.matchesInFragment, hq]
  have hmem : ∀ q, q ∈ e.el.elementPaths ↔ q = [] ∨ q ∈ e.el.descendantPaths := by
    intro q
    rw [HtmlTree.elementPaths_eq_cons e.isElement, List.mem_cons]
  constructor
  · intro h
    refine ⟨h.around e List.mem_cons_self, ?_, fun q hq => ?_⟩
    · rw [Bool.eq_false_iff]
      intro hmatch
      have hself : e.matchesInFragment selector (e.path ++ []) = true :=
        (hfragment [] ((hmem []).mpr (.inl rfl))).mpr hmatch
      obtain ⟨q, hq, heq⟩ := (hbelow _).mp (h.unwanted e List.mem_cons_self _ hself).1
      exact e.el.nil_notMem_descendantPaths (List.append_cancel_left heq ▸ hq)
    · have hown := hfragment q ((hmem q).mpr (.inr hq))
      rw [Bool.eq_iff_iff, ← hown]
      constructor
      · exact fun hmatch => (h.unwanted e List.mem_cons_self _ hmatch).2
      · intro hmatch
        have hcount := h.wanted (e.path ++ q) ((hbelow _).mpr ⟨q, hq, rfl⟩) hmatch
        by_contra hnot
        simp [hnot] at hcount
  · intro h
    refine ⟨by simpa using h.around, fun path hpath hmatch => ?_, ?_⟩
    · obtain ⟨q, hq, rfl⟩ := (hbelow path).mp hpath
      have hfound : e.matchesInFragment selector (e.path ++ q) = true := by
        rw [hfragment q ((hmem q).mpr (.inr hq)), h.below q hq]
        exact hmatch
      simp [hfound]
    · simp only [List.mem_singleton, forall_eq]
      intro path hmatch
      obtain ⟨q, hq, hq'⟩ := List.any_eq_true.mp hmatch
      simp only [Bool.and_eq_true, decide_eq_true_eq] at hq'
      obtain ⟨rfl, hfragmentMatch⟩ := hq'
      rcases (hmem q).mp hq with rfl | hdescendant
      · rw [h.self] at hfragmentMatch
        cases hfragmentMatch
      · rw [h.below q hdescendant] at hfragmentMatch
        exact ⟨(hbelow _).mpr ⟨q, hdescendant, rfl⟩, hfragmentMatch⟩

/-- A selector that looks at nothing outside the element: the element is found in itself when it
matches, and kept and accepted for what is below it. -/
theorem matches_of_local {e : SelectedElement lib doc}
    (haround : lib.matchesAt e.el.wrapped selector [] = false)
    (hself : lib.matchesAt e.el.wrapped selector [0] = lib.matchesAt doc selector e.path)
    (hbelow : ∀ q ∈ e.el.descendantPaths,
      lib.matchesAt e.el.wrapped selector (0 :: q) = lib.matchesAt doc selector (e.path ++ q)) :
    (MatchesOnce [e] selector ↔ lib.matchesAt doc selector e.path = false) ∧
      ((lib.matchesAt doc selector e.path = true ↔ lib.TouchesFragment e.el selector) ↔
        lib.matchesAt doc selector e.path = true ∨
          ∀ q ∈ e.el.descendantPaths, lib.matchesAt doc selector (e.path ++ q) = false) := by
  rw [matchesOnce_singleton]
  constructor
  · exact ⟨fun h => hself.symm.trans h.self, fun h => ⟨haround, hself.trans h, hbelow⟩⟩
  · have htouches : lib.TouchesFragment e.el selector ↔
        lib.matchesAt doc selector e.path = true ∨
          ∃ q ∈ e.el.descendantPaths, lib.matchesAt doc selector (e.path ++ q) = true := by
      rw [HtmlLib.TouchesFragment, haround, hself]
      have hexists : (∃ q ∈ e.el.descendantPaths,
          lib.matchesAt e.el.wrapped selector (0 :: q) = true) ↔
          ∃ q ∈ e.el.descendantPaths, lib.matchesAt doc selector (e.path ++ q) = true :=
        exists_congr fun q => and_congr_right fun hq => by rw [hbelow q hq]
      rw [hexists]
      simp
    have hnone : (∀ q ∈ e.el.descendantPaths, lib.matchesAt doc selector (e.path ++ q) = false) ↔
        ¬∃ q ∈ e.el.descendantPaths, lib.matchesAt doc selector (e.path ++ q) = true := by
      simp
    rw [htouches, hnone]
    cases lib.matchesAt doc selector e.path with
    | true => simp
    | false => simp

/-! ## A division with a paragraph -/

/-- The name of an element. -/
def HtmlTree.isNamed (name : Str) : HtmlTree → Bool
  | .element tag _ _ => tag == name
  | _ => false

def paragraph : HtmlTree := .element "p".toList [] []

def division : HtmlTree := .element "div".toList [] [paragraph]

def divisionPage : HtmlTree :=
  .element "html".toList [] [.element "head".toList [] [], .element "body".toList [] [division]]

/-- Selectors by the name of an element; the parser and the serialiser as they treat the division
and its paragraph. -/
def divisionLib : HtmlLib where
  parseDocument _ := divisionPage
  parseFragment htmlStr :=
    if htmlStr = "<div><p></p></div>".toList then division.wrapped
    else if htmlStr = "<p></p>".toList then paragraph.wrapped
    else .other htmlStr
  innerHtml el := if el.isNamed "div".toList then "<p></p>".toList else []
  outerHtml el :=
    if el.isNamed "div".toList then "<div><p></p></div>".toList else "<p></p>".toList
  parseSelector selector := some fun doc path => (doc.nodeAt path).any (·.isNamed selector)

def selectedDivision : SelectedElement divisionLib divisionPage where
  path := [1, 0]
  el := division
  value := recordTree (divisionLib.record division)
  node := rfl
  isElement := rfl
  isRecord := isValueOf_recordTree List.nodup_nil

def selectedParagraph : SelectedElement divisionLib divisionPage where
  path := [1, 0, 0]
  el := paragraph
  value := recordTree (divisionLib.record paragraph)
  node := rfl
  isElement := rfl
  isRecord := isValueOf_recordTree List.nodup_nil

/-- The division and its paragraph. -/
def nestedSelection : List (SelectedElement divisionLib divisionPage) :=
  [selectedDivision, selectedParagraph]

theorem reparses_nested : Reparses nestedSelection := by
  simp only [Reparses, nestedSelection, List.forall_mem_cons]
  exact ⟨rfl, rfl, List.forall_mem_nil _⟩

theorem selection_iff_division :
    (FindsDescendants nestedSelection ['p'] ↔
        (∀ e ∈ nestedSelection, ∀ record ∈ e.foundRecords ['p'], PlainAttrs record) ∧
          MatchesOnce nestedSelection ['p']) ∧
      (KeepsMatching nestedSelection ['p'] ↔ ∀ e ∈ nestedSelection, e.IsReadable ['p'] ∧
        (divisionLib.matchesAt divisionPage ['p'] e.path = true ↔
          divisionLib.TouchesFragment e.el ['p'])) ∧
      (AcceptsMatching nestedSelection ['p'] ↔
        (∀ before e after, nestedSelection = before ++ e :: after →
          (∀ e' ∈ before, ¬divisionLib.TouchesFragment e'.el ['p']) → e.IsReadable ['p']) ∧
        ((∃ e ∈ nestedSelection, divisionLib.matchesAt divisionPage ['p'] e.path = true) ↔
          ∃ e ∈ nestedSelection, divisionLib.TouchesFragment e.el ['p'])) ∧
      (FindsInDocument divisionLib [] ['p'] ↔
        (∀ record ∈ divisionLib.htmlRootElements [] ++ divisionLib.htmlFind [] ['p'],
          PlainAttrs record) ∧ divisionLib.matchesAt divisionPage ['p'] [] = false) :=
  selection_iff reparses_nested rfl ['p']

/-- The division is kept and accepted for its paragraph, and it is found in itself. -/
theorem not_selects_division :
    (¬∀ (lib : HtmlLib) (doc : HtmlTree) (selection : List (SelectedElement lib doc))
      (selector : Str), Reparses selection →
        FindsDescendants selection selector ∧ KeepsMatching selection selector ∧
          AcceptsMatching selection selector) ∧
      divisionLib.is ['p'] [selectedDivision.value] = some true ∧
      (divisionLib.find "div".toList [selectedDivision.value]).map List.length = some 1 := by
  refine ⟨fun hall => ?_, by decide +kernel, by decide +kernel⟩
  have hparse : Reparses [selectedDivision] := by
    simp only [Reparses, List.forall_mem_singleton]
    rfl
  have haccepts := (hall _ _ [selectedDivision] ['p'] hparse).2.2
  have htrue : divisionLib.is ['p'] (selectedValues [selectedDivision]) = some true := by
    decide +kernel
  rw [AcceptsMatching, htrue] at haccepts
  exact absurd haccepts (by decide +kernel)

end K6Rs
