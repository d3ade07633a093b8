import Mathlib.Data.List.Nodup
import K6Rs.Verification.Html.Json

/-! # The fragment of an element

An element is asked by a fragment made of its outer HTML. The candidates there are the element
that the parser puts around the fragment, the element itself and what is below it. The answer
comes back as JSON text, which an attribute name can spoil. -/

namespace K6Rs

open JsonTree

variable {lib : HtmlLib} {selector : Str} {doc el : HtmlTree} {path : HtmlPath}

/-! ## Paths -/

namespace HtmlTree

/-- The elements below a node. -/
def descendantPaths (el : HtmlTree) : List HtmlPath := el.elementPaths.tail

theorem elementPaths_eq_cons (h : el.isElement = true) :
    el.elementPaths = [] :: el.descendantPaths := by
  cases el with
  | element tag attrs children => rw [descendantPaths, elementPaths, List.tail_cons]
  | text content => nomatch h
  | other content => nomatch h

mutual

theorem exists_nodeAt_of_mem (t : HtmlTree) (p : HtmlPath) (h : p ∈ t.elementPaths) :
    ∃ el, t.nodeAt p = some el ∧ el.isElement = true := by
  match t, h with
  | .element tag attrs children, h =>
      rw [elementPaths, List.mem_cons] at h
      rcases h with rfl | h
      · exact ⟨_, rfl, rfl⟩
      · obtain ⟨i, child, q, rfl, hchild, hel⟩ := exists_child_of_mem children 0 p h
        rw [Nat.zero_add, nodeAt, hchild]
        exact hel

theorem exists_child_of_mem (ts : List HtmlTree) (start : ℕ) (p : HtmlPath)
    (h : p ∈ elementPathsFrom start ts) :
    ∃ i child q, p = (start + i) :: q ∧ ts[i]? = some child ∧
      ∃ el, child.nodeAt q = some el ∧ el.isElement = true := by
  match ts, h with
  | child :: rest, h =>
      rw [elementPathsFrom, List.mem_append] at h
      rcases h with h | h
      · obtain ⟨q, hq, rfl⟩ := List.mem_map.mp h
        exact ⟨0, child, q, rfl, rfl, exists_nodeAt_of_mem child q hq⟩
      · obtain ⟨i, child', q, rfl, hchild, hel⟩ := exists_child_of_mem rest (start + 1) p h
        exact ⟨i + 1, child', q, by rw [Nat.add_right_comm, Nat.add_assoc], hchild, hel⟩

end

/-- What the parser makes of the outer HTML of an element. -/
def wrapped (el : HtmlTree) : HtmlTree := .element "html".toList [] [el]

theorem elementPaths_wrapped (h : el.isElement = true) :
    (wrapped el).elementPaths = [] :: [0] :: el.descendantPaths.map (0 :: ·) := by
  rw [wrapped, elementPaths, elementPathsFrom, elementPathsFrom, elementPaths_eq_cons h]
  simp

theorem nil_notMem_descendantPaths (el : HtmlTree) : [] ∉ el.descendantPaths := by
  cases el with
  | element tag attrs children =>
      rw [descendantPaths, elementPaths, List.tail_cons]
      intro h
      obtain ⟨i, child, q, hp, -⟩ := exists_child_of_mem children 0 [] h
      nomatch hp
  | text content => simp [descendantPaths, elementPaths]
  | other content => simp [descendantPaths, elementPaths]

mutual

theorem nodup_elementPaths (t : HtmlTree) : t.elementPaths.Nodup := by
  match t with
  | .element tag attrs children =>
      rw [elementPaths, List.nodup_cons]
      refine ⟨fun h => ?_, nodup_elementPathsFrom children 0⟩
      obtain ⟨i, child, q, hp, -⟩ := exists_child_of_mem children 0 [] h
      cases hp
  | .text content => exact List.nodup_nil
  | .other content => exact List.nodup_nil

theorem nodup_elementPathsFrom (ts : List HtmlTree) (start : ℕ) :
    (elementPathsFrom start ts).Nodup := by
  match ts with
  | [] => exact List.nodup_nil
  | child :: rest =>
      rw [elementPathsFrom, List.nodup_append]
      refine ⟨(nodup_elementPaths child).map fun _ _ h => (List.cons.inj h).2,
        nodup_elementPathsFrom rest (start + 1), fun p hp p' hp' => ?_⟩
      obtain ⟨q, -, rfl⟩ := List.mem_map.mp hp
      obtain ⟨i, child', q', rfl, -⟩ := exists_child_of_mem rest (start + 1) p' hp'
      intro heq
      have hhead := (List.cons.inj heq).1
      omega

end

theorem nodeAt_append {doc el : HtmlTree} {path : HtmlPath} (h : doc.nodeAt path = some el)
    (q : HtmlPath) : doc.nodeAt (path ++ q) = el.nodeAt q := by
  induction path generalizing doc with
  | nil =>
      cases doc <;> cases h <;> rfl
  | cons i path ih =>
      cases doc with
      | element tag attrs children =>
          rw [nodeAt] at h
          rw [List.cons_append, nodeAt]
          cases hchild : children[i]? with
          | none => simp [hchild] at h
          | some child =>
              rw [hchild] at h
              exact ih h
      | text content => cases h
      | other content => cases h

theorem nodeAt_wrapped (el : HtmlTree) (q : HtmlPath) :
    el.wrapped.nodeAt (0 :: q) = el.nodeAt q := by
  rw [wrapped, nodeAt]
  rfl

end HtmlTree

/-! ## Matches -/

namespace HtmlLib

/-- The element at a path matches; nothing matches a text that is no selector. -/
def matchesAt (lib : HtmlLib) (doc : HtmlTree) (selector : Str) (path : HtmlPath) : Bool :=
  match lib.parseSelector selector with
  | none => false
  | some sel => sel doc path

theorem select_eq_filter (lib : HtmlLib) (doc : HtmlTree) (selector : Str) :
    lib.select doc selector = doc.elementPaths.filter (lib.matchesAt doc selector) := by
  unfold select matchesAt
  cases lib.parseSelector selector with
  | none => simp
  | some sel => rfl

theorem length_recordsAt {paths : List HtmlPath} (h : ∀ path ∈ paths, path ∈ doc.elementPaths) :
    (lib.recordsAt doc paths).length = paths.length := by
  induction paths with
  | nil => rfl
  | cons path paths ih =>
      rw [List.forall_mem_cons] at h
      obtain ⟨el, hnode, -⟩ := doc.exists_nodeAt_of_mem path h.1
      have hrest := ih h.2
      rw [recordsAt] at hrest ⊢
      rw [List.filterMap_cons_some (by rw [hnode]; rfl), List.length_cons, List.length_cons, hrest]

/-- The element, something below it or the element around it matches in the fragment made of it. -/
def TouchesFragment (lib : HtmlLib) (el : HtmlTree) (selector : Str) : Prop :=
  lib.matchesAt el.wrapped selector [] = true ∨ lib.matchesAt el.wrapped selector [0] = true ∨
    ∃ path ∈ el.descendantPaths, lib.matchesAt el.wrapped selector (0 :: path) = true

end HtmlLib


/-! ## The JSON text between -/

/-- The text of records begins with the bracket of their array. -/
theorem readsText_front {records : List HtmlRecord} {v : JsonTree}
    (h : ReadsText (recordsJson records) v) :
    ∃ rest after, recordsJson records = '[' :: rest ++ after ∧ Reads ('[' :: rest) v := by
  obtain ⟨before, body, after, htext, hbefore, -, hreads⟩ := h
  cases before with
  | nil =>
      obtain ⟨c, rest, rfl, -⟩ := hreads.head
      obtain rfl : '[' = c := (List.cons.inj htext).1
      exact ⟨rest, after, htext, hreads⟩
  | cons c before =>
      have hc := hbefore c List.mem_cons_self
      rw [← (List.cons.inj htext).1] at hc
      simp at hc

theorem readsText_array {records : List HtmlRecord} {v : JsonTree}
    (h : ReadsText (recordsJson records) v) : ∃ items, v = .array items := by
  obtain ⟨rest, -, -, hreads⟩ := readsText_front h
  generalize hbody : '[' :: rest = body at hreads
  cases hreads with
  | emptyArray => exact ⟨_, rfl⟩
  | array => exact ⟨_, rfl⟩
  | null => cases hbody
  | bool b =>
      cases b
      · cases hbody
      · cases hbody
  | number hnumber =>
      obtain ⟨c, _, rfl, hc⟩ := hnumber.head
      rw [← (List.cons.inj hbody).1] at hc
      exact absurd hc (by decide)
  | string => cases hbody
  | emptyObject => cases hbody
  | object => cases hbody

theorem parseRecords_eq_some_iff {records : List HtmlRecord} {items : List JsonTree} :
    parseRecords records = some items ↔ ReadsText (recordsJson records) (.array items) := by
  rw [← parse_eq_some_iff, parseRecords]
  split
  · rename_i found hfound
    rw [hfound]
    simp
  · rename_i hother
    constructor
    · intro h
      cases h
    · exact fun h => (hother items h).elim

/-- As many items stand in the text as there are records, where there are none. -/
theorem items_eq_nil_iff {records : List HtmlRecord} {items : List JsonTree}
    (h : ReadsText (recordsJson records) (.array items)) : items = [] ↔ records = [] := by
  constructor
  · rintro rfl
    cases records with
    | nil => rfl
    | cons record records =>
        obtain ⟨rest, after, htext, hreads⟩ := readsText_front h
        have hsecond : (rest ++ after).head? = some '{' := by
          have htail := congrArg (fun s => s.tail.head?) htext
          cases records <;> exact htail.symm
        generalize hbody : '[' :: rest = body at hreads
        generalize hitems : array [] = v at hreads
        cases hreads with
        | @emptyArray w hw =>
            obtain rfl := (List.cons.inj hbody).2
            cases w with
            | nil => exact absurd hsecond (by simp)
            | cons c w =>
                have hc := hw c List.mem_cons_self
                obtain rfl : c = '{' := by simpa using hsecond
                simp at hc
        | @array parts hne hblank h =>
            have hnil := JsonTree.array.inj hitems
            exact absurd (List.map_eq_nil_iff.mp hnil.symm) hne
        | null => cases hbody
        | bool b => cases hitems
        | number h => cases hitems
        | string => cases hitems
        | emptyObject => cases hitems
        | object => cases hitems
  · rintro rfl
    have hnil : array items = array [] := h.unique (readsText_recordsJson (List.forall_mem_nil _))
    cases hnil
    rfl

/-! ## Selections -/

/-- An element of a document in a selection, and what the script has of it. -/
structure SelectedElement (lib : HtmlLib) (doc : HtmlTree) where
  path : HtmlPath
  el : HtmlTree
  value : JsonTree
  node : doc.nodeAt path = some el
  isElement : el.isElement = true
  isRecord : IsValueOf value (lib.record el)

namespace SelectedElement

/-- What is found by the element. -/
def foundRecords (e : SelectedElement lib doc) (selector : Str) : List HtmlRecord :=
  lib.recordsAt e.el.wrapped (lib.select e.el.wrapped selector)

/-- The text of what is found by the element is JSON. -/
def IsReadable (e : SelectedElement lib doc) (selector : Str) : Prop :=
  ∃ v, ReadsText (recordsJson (e.foundRecords selector)) v

/-- Where an element of the fragment stands in the document; the one around it is not there. -/
def place (e : SelectedElement lib doc) : HtmlPath → Option HtmlPath
  | [] => none
  | _ :: q => some (e.path ++ q)

/-- The element at a path of the document matches in the fragment made of the selected one. -/
def matchesInFragment (e : SelectedElement lib doc) (selector : Str) (path : HtmlPath) : Bool :=
  e.el.elementPaths.any fun q =>
    path = e.path ++ q && lib.matchesAt e.el.wrapped selector (0 :: q)

theorem foundRecords_ne_nil_iff {e : SelectedElement lib doc} :
    e.foundRecords selector ≠ [] ↔ lib.TouchesFragment e.el selector := by
  rw [← List.length_pos_iff_ne_nil, foundRecords, HtmlLib.select_eq_filter,
    HtmlLib.length_recordsAt fun path hpath => (List.mem_filter.mp hpath).1,
    List.length_pos_iff_exists_mem, HtmlTree.elementPaths_wrapped e.isElement,
    HtmlLib.TouchesFragment]
  simp

theorem findInElement_value {e : SelectedElement lib doc}
    (hparse : lib.parseFragment (lib.outerHtml e.el) = e.el.wrapped) (selector : Str) :
    lib.findInElement e.value selector = parseRecords (e.foundRecords selector) := by
  obtain ⟨members, hvalue, hdecodes⟩ := e.isRecord
  have houter : outerHtmlOf e.value = some (lib.outerHtml e.el) := by
    rw [hvalue, outerHtmlOf, hdecodes.outerHtml]
    rfl
  rw [HtmlLib.findInElement, houter, Option.bind_some, HtmlLib.htmlFindInFragment, hparse]
  rfl

end SelectedElement

/-- The outer HTML of the selected elements is parsed into them again. -/
def Reparses (selection : List (SelectedElement lib doc)) : Prop :=
  ∀ e ∈ selection, lib.parseFragment (lib.outerHtml e.el) = e.el.wrapped

/-- The script's objects of the selected elements. -/
def selectedValues (selection : List (SelectedElement lib doc)) : List JsonTree :=
  selection.map SelectedElement.value

theorem find_eq_some_iff {selection : List (SelectedElement lib doc)} (hparse : Reparses selection)
    {found : List JsonTree} :
    lib.find selector (selectedValues selection) = some found ↔
      ∃ itemss, List.Forall₂ (fun records items => ReadsText (recordsJson records) (.array items))
        (selection.map fun e => e.foundRecords selector) itemss ∧ found = itemss.flatten := by
  induction selection generalizing found with
  | nil =>
      constructor
      · intro h
        cases h
        exact ⟨[], .nil, rfl⟩
      · rintro ⟨_, ⟨⟩, rfl⟩
        rfl
  | cons e rest ih =>
      rw [Reparses, List.forall_mem_cons] at hparse
      rw [selectedValues, List.map_cons, HtmlLib.find, SelectedElement.findInElement_value hparse.1]
      simp only [Option.bind_eq_bind, Option.bind_eq_some_iff, parseRecords_eq_some_iff]
      constructor
      · rintro ⟨items, hitems, results, hresults, h⟩
        cases h
        obtain ⟨itemss, hall, rfl⟩ := (ih hparse.2).mp hresults
        exact ⟨items :: itemss, .cons hitems hall, rfl⟩
      · rintro ⟨_, hall, rfl⟩
        cases hall with
        | cons hitems hall => exact ⟨_, hitems, _, (ih hparse.2).mpr ⟨_, hall, rfl⟩, rfl⟩

end K6Rs
