import K6Rs.Model.Groups

/-! What the group tree holds after any writes. A write is given by the segments of its path:
they are the place of its node, and its node is the only one that keeps it. -/

namespace K6Rs

open FloatOps

namespace GroupCall

variable {F : Type}

def isCheck (name : Str) (passed : Bool) : GroupCall F → Bool
  | .checkAdd n p => n = name && p = passed
  | _ => false

def duration? : GroupCall F → Option F
  | .groupDurationAdd durationMs => some durationMs
  | _ => none

end GroupCall

section Writes

variable {F : Type} (writes : List (List Str × GroupCall F))

/-- How often a check was written at a place with this outcome. -/
def countAt (place : List Str) (name : Str) (passed : Bool) : ℕ :=
  writes.countP fun w => w.1 = place && w.2.isCheck name passed

/-- The record of a check at a place, which is there once the check was written. -/
def recordAt (place : List Str) (name : Str) : Option CheckRecord :=
  let record : CheckRecord := ⟨countAt writes place name true, countAt writes place name false⟩
  if record = ⟨0, 0⟩ then none else some record

def durationsAt (place : List Str) : List F :=
  (writes.filter fun w => w.1 = place).filterMap fun w => w.2.duration?

/-- The places that some write was at or below. The root is always there. -/
def Reached (place : List Str) : Prop := place = [] ∨ ∃ w ∈ writes, place <+: w.1

/-- The place and the calls of writes to paths. -/
def placed (calls : List (Str × GroupCall F)) : List (List Str × GroupCall F) :=
  calls.map fun call => (groupPathSegments call.1, call.2)

end Writes

section Counts

variable {F : Type} {writes : List (List Str × GroupCall F)} {place : List Str}

theorem countAt_concat (w : List Str × GroupCall F) (name : Str) (passed : Bool) :
    countAt (writes ++ [w]) place name passed =
      countAt writes place name passed +
        if w.1 = place ∧ w.2.isCheck name passed = true then 1 else 0 := by
  simp [countAt, List.countP_append, List.countP_singleton]

theorem recordAt_getD (name : Str) :
    (recordAt writes place name).getD ⟨0, 0⟩ =
      ⟨countAt writes place name true, countAt writes place name false⟩ := by
  rw [recordAt]
  split
  · rename_i h
    exact h.symm
  · rfl

theorem recordAt_concat_of_ne {w : List Str × GroupCall F} (h : w.1 ≠ place) (name : Str) :
    recordAt (writes ++ [w]) place name = recordAt writes place name := by
  simp [recordAt, countAt_concat, h]

theorem recordAt_concat_of_not_check {segments : List Str} {call : GroupCall F} {name : Str}
    (h : ∀ passed, call.isCheck name passed = false) :
    recordAt (writes ++ [(segments, call)]) place name = recordAt writes place name := by
  simp [recordAt, countAt_concat, h]

theorem durationsAt_concat_of_ne {w : List Str × GroupCall F} (h : w.1 ≠ place) :
    durationsAt (writes ++ [w]) place = durationsAt writes place := by
  simp [durationsAt, List.filter_append, h]

theorem durationsAt_concat (segments : List Str) (call : GroupCall F) :
    durationsAt (writes ++ [(segments, call)]) segments =
      durationsAt writes segments ++ call.duration?.toList := by
  cases h : call.duration? <;> simp [durationsAt, List.filter_append, h]

theorem reached_concat (segments : List Str) (call : GroupCall F) :
    Reached (writes ++ [(segments, call)]) place ↔ Reached writes place ∨ place <+: segments := by
  simp only [Reached, List.mem_append, List.mem_singleton, or_and_right, exists_or,
    exists_eq_left, or_assoc]

/-- Nothing is recorded at a place that no write was at. -/
theorem not_at_of_not_reached (h : ¬Reached writes place) : ∀ w ∈ writes, w.1 ≠ place := by
  rintro w hw rfl
  exact h (.inr ⟨w, hw, List.prefix_rfl⟩)

theorem recordAt_of_not_reached (h : ¬Reached writes place) (name : Str) :
    recordAt writes place name = none := by
  have hcount : ∀ passed, countAt writes place name passed = 0 := fun passed =>
    List.countP_eq_zero.mpr fun w hw => by simp [not_at_of_not_reached h w hw]
  simp [recordAt, hcount]

theorem durationsAt_of_not_reached (h : ¬Reached writes place) : durationsAt writes place = [] := by
  have hfilter : writes.filter (fun w => w.1 = place) = [] :=
    List.filter_eq_nil_iff.mpr fun w hw => by simpa using not_at_of_not_reached h w hw
  rw [durationsAt, hfilter, List.filterMap_nil]

end Counts

variable {F H : Type} [FloatOps F] [Histogram F H]

/-- A node shows what was written at its place. -/
structure GroupData.Shows (writes : List (List Str × GroupCall F)) (place : List Str)
    (node : GroupData F H) : Prop where
  name : node.name = place.getLastD []
  path : node.path = Str.joinDoubled ':' place
  checks : ∀ name, node.checks.find? name = recordAt writes place name
  duration : node.groupDuration = (durationsAt writes place).foldl TrendMetric.record .new

/-- The tree has a node for each place that was reached, which shows what was written there. -/
structure GroupNode.Mirrors (writes : List (List Str × GroupCall F)) (tree : GroupNode F H) :
    Prop where
  ordered : tree.Ordered
  reached : ∀ place, (tree.at? place).isSome ↔ Reached writes place
  shows : ∀ place node, tree.at? place = some node → node.value.Shows writes place

namespace GroupData

variable {writes : List (List Str × GroupCall F)} {place : List Str} {node : GroupData F H}

theorem shows_child (h : ¬Reached writes place) :
    (child (place.getLastD []) (Str.joinDoubled ':' place) : GroupData F H).Shows writes place where
  name := rfl
  path := rfl
  checks name := (recordAt_of_not_reached h name).symm
  duration := by
    rw [durationsAt_of_not_reached h]
    rfl

theorem Shows.of_ne (h : node.Shows writes place) {w : List Str × GroupCall F}
    (hne : w.1 ≠ place) : node.Shows (writes ++ [w]) place where
  name := h.name
  path := h.path
  checks name := by rw [h.checks, recordAt_concat_of_ne hne]
  duration := by rw [h.duration, durationsAt_concat_of_ne hne]

theorem Shows.checkAdd (h : node.Shows writes place) (name : Str) (passed : Bool) :
    (node.checkAdd name passed).Shows (writes ++ [(place, .checkAdd name passed)]) place where
  name := h.name
  path := h.path
  checks c := by
    rw [GroupData.checkAdd, SortedMap.find?_insert, h.checks, h.checks, recordAt_getD]
    by_cases hc : c = name
    · subst hc
      cases passed <;> simp [recordAt, countAt_concat, GroupCall.isCheck]
    · rw [if_neg hc, recordAt_concat_of_not_check]
      intro p
      simp [GroupCall.isCheck, Ne.symm hc]
  duration := by
    rw [durationsAt_concat]
    exact h.duration.trans (by simp [GroupCall.duration?])

theorem Shows.groupRegister (h : node.Shows writes place) :
    node.Shows (writes ++ [(place, .groupRegister)]) place where
  name := h.name
  path := h.path
  checks c := by rw [h.checks, recordAt_concat_of_not_check fun _ => rfl]
  duration := by
    rw [durationsAt_concat]
    exact h.duration.trans (by simp [GroupCall.duration?])

theorem Shows.groupDurationAdd (h : node.Shows writes place) (durationMs : F) :
    ({ node with groupDuration := node.groupDuration.record durationMs } : GroupData F H).Shows
      (writes ++ [(place, .groupDurationAdd durationMs)]) place where
  name := h.name
  path := h.path
  checks c := by rw [h.checks, recordAt_concat_of_not_check fun _ => rfl]
  duration := by simp [durationsAt_concat, GroupCall.duration?, h.duration]

end GroupData

namespace GroupNode

theorem freshAt_child (path : Str) (place : List Str) (h : place ≠ []) :
    KeyTree.freshAt pushSegment (GroupData.child (F := F) (H := H)) path place =
      some (.child (place.getLastD []) (path ++ Str.joinDoubled ':' place)) := by
  induction place generalizing path with
  | nil => contradiction
  | cons name place ih =>
      cases place with
      | nil => simp [KeyTree.freshAt, Str.joinDoubled, pushSegment]
      | cons next place =>
          rw [KeyTree.freshAt, ih _ (List.cons_ne_nil _ _)]
          · simp [Str.joinDoubled, pushSegment]
          · simp

theorem mirrors_root : (root : GroupNode F H).Mirrors [] where
  ordered := KeyTree.ordered_leaf _
  reached place := by
    cases place <;> simp [root, Reached, KeyTree.at?_cons, KeyTree.leaf, KeyTree.children]
  shows place node h := by
    cases place with
    | nil =>
        cases h
        exact ⟨rfl, rfl, fun _ => rfl, rfl⟩
    | cons name place => cases h

/-- The node of a place, or the one that would be created there, shows what was written. -/
theorem Mirrors.valueAt {writes : List (List Str × GroupCall F)} {tree : GroupNode F H}
    (h : tree.Mirrors writes) (place : List Str) :
    ∃ v, tree.valueAt pushSegment GroupData.child [] place = some v ∧ v.Shows writes place := by
  cases hat : tree.at? place with
  | some m => exact ⟨m.value, by simp [KeyTree.valueAt, hat], h.shows place m hat⟩
  | none =>
      have hnot : ¬Reached writes place := fun hreached => by
        simpa [hat] using (h.reached place).mpr hreached
      refine ⟨_, ?_, GroupData.shows_child hnot⟩
      rw [KeyTree.valueAt, hat, freshAt_child _ _ fun hnil => hnot (.inl hnil)]
      rfl

/-- A write keeps the mirror when its update of the node at its place does. -/
theorem Mirrors.navigateOrCreate {writes : List (List Str × GroupCall F)} {tree : GroupNode F H}
    (h : tree.Mirrors writes) (segments : List Str) (call : GroupCall F)
    {use : GroupData F H → GroupData F H}
    (huse : ∀ node : GroupData F H, node.Shows writes segments →
      (use node).Shows (writes ++ [(segments, call)]) segments) :
    (navigateOrCreate segments use tree).Mirrors (writes ++ [(segments, call)]) := by
  have hroot : tree.value.path = [] := (h.shows [] tree rfl).path
  have hvisit := KeyTree.value_at?_visit pushSegment GroupData.child use segments [] tree
  rw [GroupNode.navigateOrCreate, hroot]
  refine ⟨h.ordered.visit, fun place => ?_, fun place node hnode => ?_⟩
  · rw [reached_concat, ← Option.isSome_map (f := KeyTree.value), hvisit place]
    split
    · rename_i hpre
      obtain ⟨v, hv, _⟩ := h.valueAt place
      simp [hv, hpre]
    · rename_i hnot
      rw [Option.isSome_map, h.reached, or_iff_left hnot]
  · have hmap := hvisit place
    rw [hnode, Option.map_some] at hmap
    split at hmap
    · obtain ⟨v, hv, hshows⟩ := h.valueAt place
      rw [hv, Option.map_some, Option.some_inj] at hmap
      rw [hmap]
      split
      · rename_i heq
        subst heq
        exact huse v hshows
      · rename_i hne
        exact hshows.of_ne (Ne.symm hne)
    · rename_i hnot
      obtain ⟨m, hm, hvalue⟩ := Option.map_eq_some_iff.mp hmap.symm
      rw [← hvalue]
      refine (h.shows place m hm).of_ne ?_
      rintro rfl
      exact hnot List.prefix_rfl

/-- What one call does to the mirror. -/
theorem Mirrors.apply {writes : List (List Str × GroupCall F)} {tree : GroupNode F H}
    (h : tree.Mirrors writes) (groupPath : Str) (call : GroupCall F) :
    (call.apply groupPath tree).Mirrors (writes ++ [(groupPathSegments groupPath, call)]) := by
  cases call with
  | checkAdd name passed =>
      exact h.navigateOrCreate _ _ fun node hnode => hnode.checkAdd name passed
  | groupRegister =>
      have hregister := h.navigateOrCreate (groupPathSegments groupPath) .groupRegister
        fun node hnode => hnode.groupRegister
      rw [GroupCall.apply, groupRegister]
      split
      · -- The root is there already: navigating to it would change nothing.
        rename_i hempty
        rw [groupPathSegments, if_pos hempty] at hregister ⊢
        cases tree
        exact hregister
      · exact hregister
  | groupDurationAdd durationMs =>
      exact h.navigateOrCreate _ _ fun node hnode => hnode.groupDurationAdd durationMs

theorem mirrors_groupTree (calls : List (Str × GroupCall F)) :
    (groupTree calls : GroupNode F H).Mirrors (placed calls) := by
  induction calls using List.reverseRecOn with
  | nil => exact mirrors_root
  | append_singleton calls call ih =>
      rw [groupTree, List.foldl_append, placed, List.map_append]
      exact ih.apply call.1 call.2

/-! ## Reads -/

variable {writes : List (List Str × GroupCall F)} {tree : GroupNode F H}

/-- A read of a check finds what was written at the place of its path. -/
theorem Mirrors.checkGet (h : tree.Mirrors writes) (groupPath name : Str) :
    tree.checkGet groupPath name =
      (countAt writes (groupPathSegments groupPath) name true,
        countAt writes (groupPathSegments groupPath) name false) := by
  set place := groupPathSegments groupPath
  have hrecord : tree.checkGet groupPath name =
      (((recordAt writes place name).getD ⟨0, 0⟩).passes,
        ((recordAt writes place name).getD ⟨0, 0⟩).fails) := by
    rw [GroupNode.checkGet]
    cases hat : tree.at? place with
    | none =>
        have hnot : ¬Reached writes place := fun hreached => by
          simpa [hat] using (h.reached place).mpr hreached
        rw [recordAt_of_not_reached hnot]
        rfl
    | some cursor =>
        dsimp only
        rw [(h.shows _ cursor hat).checks]
        cases recordAt writes place name <;> rfl
  rw [hrecord, recordAt_getD]

/-- Every node but the root has the path of its parent, followed by its name. -/
theorem Mirrors.path_child (h : tree.Mirrors writes) {place : List Str} {name : Str}
    {parent node : GroupNode F H} (hparent : tree.at? place = some parent)
    (hnode : parent.at? [name] = some node) :
    node.value.name = name ∧ node.value.path = pushSegment parent.value.path name := by
  have hat : tree.at? (place ++ [name]) = some node := by
    rw [KeyTree.at?_append, hparent, Option.bind_some, hnode]
  have hshows := h.shows _ _ hat
  rw [hshows.name, hshows.path, (h.shows _ _ hparent).path]
  simp [Str.joinDoubled, pushSegment]

/-- The summary has the nodes of the tree at their places, with what was written there. -/
theorem Mirrors.at?_summary (h : tree.Mirrors writes) (md5 : Str → Str) (place : List Str) :
    ((convertGroup md5 tree.snapshot).at? place).isSome ↔ Reached writes place := by
  rw [convertGroup, snapshot, KeyTree.at?_map, KeyTree.at?_map, Option.isSome_map,
    Option.isSome_map, h.reached]

theorem Mirrors.value_summary (h : tree.Mirrors writes) {md5 : Str → Str} {place : List Str}
    {group : SummaryGroup} (hgroup : (convertGroup md5 tree.snapshot).at? place = some group) :
    group.value.name = place.getLastD [] ∧ group.value.path = Str.joinDoubled ':' place ∧
      group.value.id = md5 (Str.joinDoubled ':' place) ∧
      ∀ name, group.value.checks.find? name = (recordAt writes place name).map fun r =>
        let path := Str.joinDoubled ':' (place ++ [name])
        { name, path, id := md5 path, passes := r.passes, fails := r.fails } := by
  rw [convertGroup, snapshot, KeyTree.at?_map, KeyTree.at?_map, Option.map_map] at hgroup
  obtain ⟨node, hnode, rfl⟩ := Option.map_eq_some_iff.mp hgroup
  have hshows := h.shows place node hnode
  rw [Function.comp_apply, KeyTree.value_map, KeyTree.value_map]
  refine ⟨hshows.name, hshows.path, congrArg md5 hshows.path, fun name => ?_⟩
  rw [GroupSnapshotData.convert, GroupData.snapshot, SortedMap.find?_mapValues,
    SortedMap.find?_mapValues, Option.map_map, hshows.checks, hshows.path]
  simp [Function.comp_def, pushSegment, Str.joinDoubled]

end GroupNode

end K6Rs
