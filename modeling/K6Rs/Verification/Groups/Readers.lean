import K6Rs.Model.GroupSummary
import K6Rs.Verification.Groups.Nesting

/-! Readers of the group tree. The conformance walker and the REST listing both visit the nodes in
the order of the tree's listing; what they make of a node follows from what its place shows. -/

namespace K6Rs

open FloatOps Str

/-! ## The walker on the summary's value -/

namespace GroupMaps

/-- The entry of a group. -/
def groupEntry (group : SummaryGroupData) : Str × CanonicalGroup :=
  (group.path, ⟨group.name, group.path, group.id⟩)

/-- The entries of the checks in a group. -/
def checkEntries (group : SummaryGroupData) : List (Str × CanonicalCheck) :=
  group.checks.entries.map fun e =>
    (e.2.path, ⟨e.2.name, group.path, e.2.id, e.2.passes, e.2.fails⟩)

def insertAll {ν : Type} (m : SortedMap Str ν) (l : List (Str × ν)) : SortedMap Str ν :=
  l.foldl (fun m e => m.insert e.1 e.2) m

/-- The maps with the entries of groups and of checks added. -/
def add (groups : List (Str × CanonicalGroup)) (checks : List (Str × CanonicalCheck))
    (maps : GroupMaps) : GroupMaps :=
  ⟨insertAll maps.groups groups, insertAll maps.checks checks⟩

theorem add_add (maps : GroupMaps) (gs gs' : List (Str × CanonicalGroup))
    (cs cs' : List (Str × CanonicalCheck)) :
    (maps.add gs cs).add gs' cs' = maps.add (gs ++ gs') (cs ++ cs') := by
  simp [add, insertAll, List.foldl_append]

theorem foldl_addCheck (groupPath : Str) (l : List (Str × SummaryCheck)) (maps : GroupMaps) :
    (l.map fun e => (e.1, e.2.toJson)).foldl (addCheck groupPath) maps =
      maps.add [] (l.map fun e =>
        (e.2.path, ⟨e.2.name, groupPath, e.2.id, e.2.passes, e.2.fails⟩)) := by
  induction l generalizing maps with
  | nil => rfl
  | cons e l ih => exact ih _

/-- What a group's value says itself. -/
theorem walkGroup_node (isRoot : Bool) (group : SummaryGroupData)
    (children : List (Str × SummaryGroup)) (maps : GroupMaps) :
    walkGroup isRoot (SummaryGroup.toJson (.node group children)) maps =
      walkGroups (SummaryGroup.groupsToJson children)
        (maps.add (if isRoot then [] else [groupEntry group]) (checkEntries group)) := by
  cases isRoot
  · exact congrArg (walkGroups _) (foldl_addCheck group.path group.checks.entries
      (maps.add [groupEntry group] []))
  · exact congrArg (walkGroups _) (foldl_addCheck group.path group.checks.entries maps)

mutual

theorem walkGroup_toJson (way : List Str) (t : SummaryGroup) (maps : GroupMaps) :
    walkGroup false t.toJson maps =
      maps.add ((t.walk way).map fun e => groupEntry e.2.value)
        ((t.walk way).flatMap fun e => checkEntries e.2.value) := by
  cases t with
  | node group children =>
      rw [walkGroup_node, walkGroups_toJson way children, add_add]
      rfl

theorem walkGroups_toJson (way : List Str) (children : List (Str × SummaryGroup))
    (maps : GroupMaps) :
    walkGroups (SummaryGroup.groupsToJson children) maps =
      maps.add ((KeyTree.walkChildren way children).map fun e => groupEntry e.2.value)
        ((KeyTree.walkChildren way children).flatMap fun e => checkEntries e.2.value) := by
  match children with
  | [] => rfl
  | (key, child) :: rest =>
      rw [SummaryGroup.groupsToJson, walkGroups, walkGroup_toJson (way ++ [key]) child,
        walkGroups_toJson way rest, add_add, KeyTree.walkChildren, List.map_append,
        List.flatMap_append]

end

/-- The walker collects the entries of all groups below the root, and of all checks. -/
theorem collectRootGroupTree_toJson (t : SummaryGroup) :
    collectRootGroupTree t.toJson =
      ⟨.ofList ((KeyTree.walkChildren [] t.children).map fun e => groupEntry e.2.value),
        .ofList ((t.walk []).flatMap fun e => checkEntries e.2.value)⟩ := by
  cases t with
  | node group children =>
      rw [collectRootGroupTree, walkGroup_node, walkGroups_toJson [], add_add]
      rfl

end GroupMaps

/-! ## Names without colons -/

/-- The group and check names of calls are not empty and free of colons. -/
structure PlainNames {F : Type} (calls : List (Str × GroupCall F)) : Prop where
  groups : ∀ call ∈ calls, ∀ name ∈ groupPathSegments call.1, name ≠ [] ∧ ':' ∉ name
  checks : ∀ call ∈ calls, ∀ name passed, call.2 = .checkAdd name passed → name ≠ [] ∧ ':' ∉ name

section Plain

variable {F : Type} {calls : List (Str × GroupCall F)} {names : List Str}

theorem PlainNames.of_reached (h : PlainNames calls) (hreached : Reached (placed calls) names) :
    ∀ name ∈ names, name ≠ [] ∧ ':' ∉ name := by
  rcases hreached with rfl | ⟨w, hw, hpre⟩
  · simp
  · obtain ⟨call, hcall, rfl⟩ := List.mem_map.mp hw
    exact fun name hname => h.groups call hcall name (hpre.subset hname)

/-- A check that is on record was written at its place. -/
theorem exists_of_recordAt {writes : List (List Str × GroupCall F)} {check : Str} {r : CheckRecord}
    (h : recordAt writes names check = some r) :
    ∃ w ∈ writes, w.1 = names ∧ ∃ passed, w.2.isCheck check passed = true := by
  by_contra hnone
  push Not at hnone
  have hcount : ∀ passed, countAt writes names check passed = 0 := fun passed =>
    List.countP_eq_zero.mpr fun w hw => by simpa using fun hname => hnone w hw hname passed
  simp [recordAt, hcount] at h

theorem PlainNames.of_recordAt (h : PlainNames calls) {check : Str} {r : CheckRecord}
    (hr : recordAt (placed calls) names check = some r) :
    Reached (placed calls) names ∧ ∀ name ∈ names ++ [check], name ≠ [] ∧ ':' ∉ name := by
  obtain ⟨w, hw, rfl, passed, hcheck⟩ := exists_of_recordAt hr
  have hreached : Reached (placed calls) w.1 := .inr ⟨w, hw, List.prefix_rfl⟩
  refine ⟨hreached, List.forall_mem_append.mpr ⟨h.of_reached hreached, ?_⟩⟩
  obtain ⟨call, hcall, rfl⟩ := List.mem_map.mp hw
  rw [List.forall_mem_singleton]
  cases hc : call.2 with
  | checkAdd name p =>
      simp only [hc, GroupCall.isCheck, Bool.and_eq_true, decide_eq_true_eq] at hcheck
      exact hcheck.1 ▸ h.checks call hcall name p hc
  | groupRegister => simp [hc, GroupCall.isCheck] at hcheck
  | groupDurationAdd durationMs => simp [hc, GroupCall.isCheck] at hcheck

/-- Lists of names without colons are told apart by their joined paths. -/
theorem join_inj {names' : List Str} (h : ∀ name ∈ names, name ≠ [] ∧ ':' ∉ name)
    (h' : ∀ name ∈ names', name ≠ [] ∧ ':' ∉ name)
    (heq : joinDoubled ':' names = joinDoubled ':' names') : names = names' := by
  rw [← segments_join (splitBack_of_plain h), heq, segments_join (splitBack_of_plain h')]

/-! ## What the readers give -/

/-- The maps have one entry for each group below the root, and one for each check in each group,
with the recorded counts. -/
structure GroupMaps.ReadsBack (md5 : Str → Str) (writes : List (List Str × GroupCall F))
    (maps : GroupMaps) : Prop where
  groups : ∀ path group, maps.groups.find? path = some group ↔
    ∃ names, names ≠ [] ∧ Reached writes names ∧ path = joinDoubled ':' names ∧
      group = ⟨names.getLastD [], path, md5 path⟩
  checks : ∀ path check, maps.checks.find? path = some check ↔
    ∃ names name r, recordAt writes names name = some r ∧
      path = joinDoubled ':' (names ++ [name]) ∧
      check = ⟨name, joinDoubled ':' names, md5 path, r.passes, r.fails⟩
  group_path : ∀ names names', Reached writes names → Reached writes names' →
    joinDoubled ':' names = joinDoubled ':' names' → names = names'
  check_path : ∀ names names' name name',
    (recordAt writes names name).isSome → (recordAt writes names' name').isSome →
    joinDoubled ':' (names ++ [name]) = joinDoubled ':' (names' ++ [name']) →
    names = names' ∧ name = name'

/-- The reference of a group to its parent. -/
def parentRef (md5 : Str → Str) (names : List Str) : Option Str :=
  if names = [] then none else some (md5 (joinDoubled ':' names.dropLast))

theorem parentRef_concat (md5 : Str → Str) (names : List Str) (name : Str) :
    parentRef md5 (names ++ [name]) = some (md5 (joinDoubled ':' names)) := by
  rw [parentRef, if_neg (by simp), List.dropLast_concat]

/-- A resource says of the group at a place what was written there, and refers to the groups
around and directly inside it. -/
structure GroupResource.Describes (md5 : Str → Str) (writes : List (List Str × GroupCall F))
    (names : List Str) (resource : GroupResource) : Prop where
  id : resource.id = md5 (joinDoubled ':' names)
  name : resource.name = names.getLastD []
  path : resource.path = joinDoubled ':' names
  parent : resource.parent = parentRef md5 names
  groups : ∀ id, id ∈ resource.groups ↔
    ∃ name, Reached writes (names ++ [name]) ∧ id = md5 (joinDoubled ':' (names ++ [name]))
  groups_nodup : resource.groups.Nodup
  checks : ∀ c, c ∈ resource.checks ↔ ∃ name r, recordAt writes names name = some r ∧
    let path := joinDoubled ':' (names ++ [name])
    c = { name, path, id := md5 path, passes := r.passes, fails := r.fails }

/-- Every group is listed once, with its place, and behind its parent. The references between the
listed groups are those of the tree. -/
structure ListsGroups (md5 : Str → Str) (writes : List (List Str × GroupCall F))
    (listing : List (List Str × GroupResource)) : Prop where
  once : (listing.map Prod.fst).Nodup
  every : ∀ names, (∃ resource, (names, resource) ∈ listing) ↔ Reached writes names
  describes : ∀ e ∈ listing, e.2.Describes md5 writes e.1
  ids_nodup : (listing.map fun e => e.2.id).Nodup
  parents_first : listing.Pairwise fun e later => e.2.parent ≠ some later.2.id
  references : ∀ e ∈ listing, ∀ child ∈ listing,
    child.2.parent = some e.2.id ↔ child.2.id ∈ e.2.groups
  parent_listed : ∀ e ∈ listing, ∀ id, e.2.parent = some id → ∃ p ∈ listing, p.2.id = id
  groups_listed : ∀ e ∈ listing, ∀ id ∈ e.2.groups, ∃ child ∈ listing, child.2.id = id

theorem Reached.initial {writes : List (List Str × GroupCall F)} {names' : List Str}
    (h : Reached writes names') (hpre : names <+: names') : Reached writes names := by
  rcases h with rfl | ⟨w, hw, hw'⟩
  · exact .inl (List.prefix_nil.mp hpre)
  · exact .inr ⟨w, hw, hpre.trans hw'⟩

/-- The references between groups are those of their places, whose paths have identities of
their own. -/
theorem listsGroups_of_describes {md5 : Str → Str} {writes : List (List Str × GroupCall F)}
    {listing : List (List Str × GroupResource)}
    (hid : ∀ names names', Reached writes names → Reached writes names' →
      md5 (joinDoubled ':' names) = md5 (joinDoubled ':' names') → names = names')
    (honce : (listing.map Prod.fst).Nodup)
    (hevery : ∀ names, (∃ resource, (names, resource) ∈ listing) ↔ Reached writes names)
    (hdescribes : ∀ e ∈ listing, e.2.Describes md5 writes e.1)
    (horder : (listing.map Prod.fst).Pairwise fun names names' => ¬names' <+: names) :
    ListsGroups md5 writes listing := by
  have hreached : ∀ e ∈ listing, Reached writes e.1 := fun e he => (hevery e.1).mp ⟨e.2, he⟩
  have hids : ∀ names, Reached writes names →
      ∃ e ∈ listing, e.2.id = md5 (joinDoubled ':' names) := by
    intro names hnames
    obtain ⟨resource, he⟩ := (hevery names).mpr hnames
    exact ⟨_, he, (hdescribes _ he).id⟩
  have hparent : ∀ e ∈ listing, ∀ id, e.2.parent = some id →
      e.1 ≠ [] ∧ Reached writes e.1.dropLast ∧ id = md5 (joinDoubled ':' e.1.dropLast) := by
    intro e he id hparent
    rw [(hdescribes e he).parent, parentRef] at hparent
    split at hparent
    · cases hparent
    · rename_i hne
      cases hparent
      exact ⟨hne, (hreached e he).initial (List.dropLast_prefix e.1), rfl⟩
  refine ⟨honce, hevery, hdescribes, ?_, ?_, fun e he child hchild => ?_, fun e he id h => ?_,
    fun e he id h => ?_⟩
  · refine List.pairwise_map.mpr ((List.pairwise_map.mp honce).imp_of_mem ?_)
    intro e e' he he' hne heq
    rw [(hdescribes e he).id, (hdescribes e' he').id] at heq
    exact hne (hid _ _ (hreached e he) (hreached e' he') heq)
  · refine (List.pairwise_map.mp horder).imp_of_mem ?_
    intro e later he hlater hnot heq
    obtain ⟨_, hdrop, hid'⟩ := hparent e he _ heq
    rw [(hdescribes later hlater).id] at hid'
    rw [hid _ _ (hreached later hlater) hdrop hid'] at hnot
    exact hnot (List.dropLast_prefix e.1)
  · rw [(hdescribes e he).groups, (hdescribes child hchild).id]
    constructor
    · intro h
      obtain ⟨hne, hdrop, hid'⟩ := hparent child hchild _ h
      rw [(hdescribes e he).id] at hid'
      have heq := hid _ _ (hreached e he) hdrop hid'
      have hconcat : e.1 ++ [child.1.getLast hne] = child.1 := by
        rw [heq, List.dropLast_append_getLast]
      exact ⟨child.1.getLast hne, by rw [hconcat]; exact hreached child hchild, by rw [hconcat]⟩
    · rintro ⟨name, hname, hid'⟩
      rw [(hdescribes child hchild).parent, hid _ _ (hreached child hchild) hname hid',
        parentRef_concat, (hdescribes e he).id]
  · obtain ⟨_, hdrop, rfl⟩ := hparent e he id h
    exact hids _ hdrop
  · obtain ⟨name, hname, rfl⟩ := ((hdescribes e he).groups id).mp h
    exact hids _ hname

namespace GroupResource

mutual

/-- The listing visits the nodes in the order of the tree's own listing. -/
theorem flattenGroups_eq (md5 : Str → Str) (way : List Str) (t : GroupSnapshot F)
    (h : ∀ e ∈ t.walk way, e.2.value.path = joinDoubled ':' e.1) :
    flattenGroups md5 (parentRef md5 way) t =
      (t.walk way).map fun e => ofGroup md5 (parentRef md5 e.1) e.2 := by
  cases t with
  | node group children =>
      rw [KeyTree.walk, List.forall_mem_cons] at h
      have hpath : group.path = joinDoubled ':' way := h.1
      rw [flattenGroups, hpath, flattenChildren_eq md5 way children h.2]
      rfl

theorem flattenChildren_eq (md5 : Str → Str) (way : List Str)
    (children : List (Str × GroupSnapshot F))
    (h : ∀ e ∈ KeyTree.walkChildren way children, e.2.value.path = joinDoubled ':' e.1) :
    flattenChildren md5 (md5 (joinDoubled ':' way)) children =
      (KeyTree.walkChildren way children).map fun e => ofGroup md5 (parentRef md5 e.1) e.2 := by
  match children with
  | [] => rfl
  | (key, child) :: rest =>
      rw [KeyTree.walkChildren, List.forall_mem_append] at h
      have hchild := flattenGroups_eq md5 (way ++ [key]) child h.1
      rw [parentRef_concat] at hchild
      rw [flattenChildren, hchild, flattenChildren_eq md5 way rest h.2, KeyTree.walkChildren,
        List.map_append]

end

end GroupResource

end Plain

variable {F H : Type} [FloatOps F] [Histogram F H]

/-! ## The walker -/

namespace GroupNode

variable {writes : List (List Str × GroupCall F)} {tree : GroupNode F H}

theorem Mirrors.ordered_summary (h : tree.Mirrors writes) (md5 : Str → Str) :
    (convertGroup md5 tree.snapshot).Ordered := (h.ordered.map _).map _

theorem Mirrors.mem_groupEntries (h : tree.Mirrors writes) (md5 : Str → Str) (path : Str)
    (group : CanonicalGroup) :
    (path, group) ∈ (KeyTree.walkChildren [] (convertGroup md5 tree.snapshot).children).map
        (fun e => GroupMaps.groupEntry e.2.value) ↔
      ∃ names, names ≠ [] ∧ Reached writes names ∧ path = joinDoubled ':' names ∧
        group = ⟨names.getLastD [], path, md5 path⟩ := by
  have hentry : ∀ {names node}, (convertGroup md5 tree.snapshot).at? names = some node →
      GroupMaps.groupEntry node.value = (joinDoubled ':' names,
        ⟨names.getLastD [], joinDoubled ':' names, md5 (joinDoubled ':' names)⟩) := by
    intro names node hnode
    obtain ⟨hname, hpath, hid, _⟩ := h.value_summary hnode
    rw [GroupMaps.groupEntry, hname, hpath, hid]
  rw [List.mem_map]
  constructor
  · rintro ⟨⟨names, node⟩, hmem, heq⟩
    obtain ⟨q, hne, rfl, hnode⟩ := (KeyTree.mem_walkChildren_iff (h.ordered_summary md5)).mp hmem
    rw [hentry hnode] at heq
    cases heq
    exact ⟨names, hne, (h.at?_summary md5 names).mp (by simp [hnode]), rfl, rfl⟩
  · rintro ⟨names, hne, hreached, rfl, rfl⟩
    obtain ⟨node, hnode⟩ := Option.isSome_iff_exists.mp ((h.at?_summary md5 names).mpr hreached)
    refine ⟨(names, node), ?_, hentry hnode⟩
    exact (KeyTree.mem_walkChildren_iff (h.ordered_summary md5)).mpr ⟨names, hne, rfl, hnode⟩

theorem Mirrors.mem_checkEntries (h : tree.Mirrors writes) (md5 : Str → Str) (path : Str)
    (check : CanonicalCheck) :
    (path, check) ∈ ((convertGroup md5 tree.snapshot).walk []).flatMap
        (fun e => GroupMaps.checkEntries e.2.value) ↔
      ∃ names name r, recordAt writes names name = some r ∧
        path = joinDoubled ':' (names ++ [name]) ∧
        check = ⟨name, joinDoubled ':' names, md5 path, r.passes, r.fails⟩ := by
  rw [List.mem_flatMap]
  constructor
  · rintro ⟨⟨names, node⟩, hmem, hentry⟩
    obtain ⟨q, rfl, hnode⟩ := (KeyTree.mem_walk _ (h.ordered_summary md5)).mp hmem
    obtain ⟨⟨name, c⟩, hc, heq⟩ := List.mem_map.mp hentry
    obtain ⟨_, hpath, _, hchecks⟩ := h.value_summary hnode
    rw [← SortedMap.find?_eq_some_iff, hchecks] at hc
    obtain ⟨r, hr, rfl⟩ := Option.map_eq_some_iff.mp hc
    rw [hpath] at heq
    cases heq
    exact ⟨names, name, r, hr, rfl, rfl⟩
  · rintro ⟨names, name, r, hr, rfl, rfl⟩
    obtain ⟨w, hw, hname, _⟩ := exists_of_recordAt hr
    have hreached : Reached writes names := .inr ⟨w, hw, hname ▸ List.prefix_rfl⟩
    obtain ⟨node, hnode⟩ := Option.isSome_iff_exists.mp ((h.at?_summary md5 names).mpr hreached)
    obtain ⟨_, hpath, _, hchecks⟩ := h.value_summary hnode
    have hc := hchecks name
    rw [hr, Option.map_some, SortedMap.find?_eq_some_iff] at hc
    refine ⟨(names, node), (KeyTree.mem_walk _ (h.ordered_summary md5)).mpr ⟨names, rfl, hnode⟩, ?_⟩
    exact List.mem_map.mpr ⟨_, hc, by rw [hpath]⟩

end GroupNode

theorem readsBack (md5 : Str → Str) {calls : List (Str × GroupCall F)} (h : PlainNames calls) :
    (collectRootGroupTree
      (convertGroup md5 (groupTree calls : GroupNode F H).snapshot).toJson).ReadsBack md5
        (placed calls) := by
  have hmirrors := GroupNode.mirrors_groupTree (F := F) (H := H) calls
  have hgroups : ∀ names names', Reached (placed calls) names → Reached (placed calls) names' →
      joinDoubled ':' names = joinDoubled ':' names' → names = names' :=
    fun _ _ hn hn' => join_inj (h.of_reached hn) (h.of_reached hn')
  have hchecks : ∀ names names' name name' r r', recordAt (placed calls) names name = some r →
      recordAt (placed calls) names' name' = some r' →
      joinDoubled ':' (names ++ [name]) = joinDoubled ':' (names' ++ [name']) →
      names = names' ∧ name = name' := by
    intro names names' name name' r r' hr hr' heq
    simpa using join_inj (h.of_recordAt hr).2 (h.of_recordAt hr').2 heq
  rw [GroupMaps.collectRootGroupTree_toJson]
  refine ⟨fun path group => ?_, fun path check => ?_, hgroups,
    fun names names' name name' hr hr' => ?_⟩
  · rw [SortedMap.find?_ofList_iff, hmirrors.mem_groupEntries]
    intro k v v' hv hv'
    obtain ⟨names, _, hn, rfl, rfl⟩ := (hmirrors.mem_groupEntries md5 _ _).mp hv
    obtain ⟨names', _, hn', heq, rfl⟩ := (hmirrors.mem_groupEntries md5 _ _).mp hv'
    rw [hgroups _ _ hn hn' heq]
  · rw [SortedMap.find?_ofList_iff, hmirrors.mem_checkEntries]
    intro k v v' hv hv'
    obtain ⟨names, name, r, hr, rfl, rfl⟩ := (hmirrors.mem_checkEntries md5 _ _).mp hv
    obtain ⟨names', name', r', hr', heq, rfl⟩ := (hmirrors.mem_checkEntries md5 _ _).mp hv'
    obtain ⟨rfl, rfl⟩ := hchecks _ _ _ _ _ _ hr hr' heq
    rw [hr, Option.some_inj] at hr'
    rw [hr']
  · obtain ⟨r, hr⟩ := Option.isSome_iff_exists.mp hr
    obtain ⟨r', hr'⟩ := Option.isSome_iff_exists.mp hr'
    exact hchecks _ _ _ _ _ _ hr hr'

/-! ## The REST listing -/

namespace GroupNode

variable {writes : List (List Str × GroupCall F)} {tree : GroupNode F H} {md5 : Str → Str}

theorem Mirrors.at?_snapshot (h : tree.Mirrors writes) (place : List Str) :
    (tree.snapshot.at? place).isSome ↔ Reached writes place := by
  rw [snapshot, KeyTree.at?_map, Option.isSome_map, h.reached]

theorem Mirrors.value_snapshot (h : tree.Mirrors writes) {place : List Str}
    {node : GroupSnapshot F} (hnode : tree.snapshot.at? place = some node) :
    node.value.name = place.getLastD [] ∧ node.value.path = joinDoubled ':' place ∧
      ∀ name, node.value.checks.find? name =
        (recordAt writes place name).map fun r => (r.passes, r.fails) := by
  rw [snapshot, KeyTree.at?_map] at hnode
  obtain ⟨m, hm, rfl⟩ := Option.map_eq_some_iff.mp hnode
  have hshows := h.shows place m hm
  rw [KeyTree.value_map]
  refine ⟨hshows.name, hshows.path, fun name => ?_⟩
  rw [GroupData.snapshot, SortedMap.find?_mapValues, hshows.checks]

/-- The children of a node are the groups directly inside its place. -/
theorem Mirrors.mem_children (h : tree.Mirrors writes) {place : List Str} {node : GroupSnapshot F}
    (hnode : tree.snapshot.at? place = some node) {name : Str} {child : GroupSnapshot F} :
    (name, child) ∈ node.children ↔ tree.snapshot.at? (place ++ [name]) = some child := by
  have hordered : tree.snapshot.Ordered := h.ordered.map _
  rw [(hordered.at? hnode).mem_children, KeyTree.at?_append, hnode, Option.bind_some]

theorem Mirrors.describes (h : tree.Mirrors writes)
    (hid : ∀ names names', Reached writes names → Reached writes names' →
      md5 (joinDoubled ':' names) = md5 (joinDoubled ':' names') → names = names')
    {place : List Str} {node : GroupSnapshot F} (hnode : tree.snapshot.at? place = some node) :
    (GroupResource.ofGroup md5 (parentRef md5 place) node).Describes md5 writes place := by
  obtain ⟨hname, hpath, hchecks⟩ := h.value_snapshot hnode
  have hchild : ∀ e ∈ node.children, Reached writes (place ++ [e.1]) ∧
      e.2.value.path = joinDoubled ':' (place ++ [e.1]) := by
    intro e he
    have hat := (h.mem_children hnode).mp he
    exact ⟨(h.at?_snapshot _).mp (by simp [hat]), (h.value_snapshot hat).2.1⟩
  refine ⟨congrArg md5 hpath, hname, hpath, rfl, fun id => ?_, ?_, fun c => ?_⟩
  · rw [GroupResource.ofGroup, List.mem_map]
    constructor
    · rintro ⟨e, he, rfl⟩
      exact ⟨e.1, (hchild e he).1, by rw [(hchild e he).2]⟩
    · rintro ⟨name, hreached, rfl⟩
      obtain ⟨child, hat⟩ := Option.isSome_iff_exists.mp ((h.at?_snapshot _).mpr hreached)
      exact ⟨(name, child), (h.mem_children hnode).mpr hat, by rw [(h.value_snapshot hat).2.1]⟩
  · have hordered : tree.snapshot.Ordered := h.ordered.map _
    refine List.pairwise_map.mpr ((hordered place node hnode).imp_of_mem ?_)
    intro a b ha hb hlt heq
    rw [(hchild a ha).2, (hchild b hb).2] at heq
    have hnames := hid _ _ (hchild a ha).1 (hchild b hb).1 heq
    rw [List.append_cancel_left_eq, List.cons.injEq] at hnames
    exact hlt.ne hnames.1
  · rw [GroupResource.ofGroup, List.mem_map]
    constructor
    · rintro ⟨⟨name, counts⟩, he, rfl⟩
      rw [← SortedMap.find?_eq_some_iff, hchecks] at he
      obtain ⟨r, hr, rfl⟩ := Option.map_eq_some_iff.mp he
      exact ⟨name, r, hr, by simp [hpath, pushSegment, joinDoubled]⟩
    · rintro ⟨name, r, hr, rfl⟩
      refine ⟨(name, r.passes, r.fails), ?_, by simp [hpath, pushSegment, joinDoubled]⟩
      rw [← SortedMap.find?_eq_some_iff, hchecks, hr]
      rfl

end GroupNode

/-- The REST listing of a tree. -/
theorem listsGroups {md5 : Str → Str} {calls : List (Str × GroupCall F)} (h : PlainNames calls)
    (hmd5 : Set.InjOn md5 {path | ∃ names, Reached (placed calls) names ∧
      path = joinDoubled ':' names}) :
    ∃ listing, listing.map Prod.snd =
        GroupResource.flattenGroups md5 none (groupTree calls : GroupNode F H).snapshot ∧
      ListsGroups md5 (placed calls) listing := by
  have hmirrors := GroupNode.mirrors_groupTree (F := F) (H := H) calls
  generalize (groupTree calls : GroupNode F H) = tree at hmirrors
  have hordered : tree.snapshot.Ordered := hmirrors.ordered.map _
  have hid : ∀ names names', Reached (placed calls) names → Reached (placed calls) names' →
      md5 (joinDoubled ':' names) = md5 (joinDoubled ':' names') → names = names' :=
    fun names names' hn hn' heq => join_inj (h.of_reached hn) (h.of_reached hn')
      (hmd5 ⟨names, hn, rfl⟩ ⟨names', hn', rfl⟩ heq)
  have hmem : ∀ names node, (names, node) ∈ tree.snapshot.walk [] ↔
      tree.snapshot.at? names = some node := by
    intro names node
    rw [KeyTree.mem_walk _ hordered]
    simp
  have hlist := GroupResource.flattenGroups_eq md5 [] tree.snapshot fun e he =>
    (hmirrors.value_snapshot ((hmem e.1 e.2).mp he)).2.1
  have hfst : ((tree.snapshot.walk []).map fun e =>
      (e.1, GroupResource.ofGroup md5 (parentRef md5 e.1) e.2)).map Prod.fst =
        (tree.snapshot.walk []).map Prod.fst := by simp [Function.comp_def]
  refine ⟨(tree.snapshot.walk []).map fun e =>
    (e.1, GroupResource.ofGroup md5 (parentRef md5 e.1) e.2), ?_, ?_⟩
  · rw [List.map_map]
    exact hlist.symm
  · refine listsGroups_of_describes hid ?_ (fun names => ?_) ?_ ?_
    · rw [hfst]
      exact KeyTree.nodup_walk hordered
    · rw [← hmirrors.at?_snapshot, Option.isSome_iff_exists]
      simp [hmem]
    · rw [List.forall_mem_map]
      exact fun e he => hmirrors.describes hid ((hmem e.1 e.2).mp he)
    · rw [hfst]
      exact KeyTree.pairwise_walk _ hordered

/-- After any writes whose names hold no colon, the walker reads every group and check of the
summary's tree back, and the REST listing has every group once, in the same tree. -/
theorem groups_readBack_and_listed {md5 : Str → Str} {calls : List (Str × GroupCall F)}
    (h : PlainNames calls)
    (hmd5 : Set.InjOn md5 {path | ∃ names, Reached (placed calls) names ∧
      path = joinDoubled ':' names}) :
    (collectRootGroupTree
      (convertGroup md5 (groupTree calls : GroupNode F H).snapshot).toJson).ReadsBack md5
        (placed calls) ∧
      ∃ listing, listing.map Prod.snd =
          GroupResource.flattenGroups md5 none (groupTree calls : GroupNode F H).snapshot ∧
        ListsGroups md5 (placed calls) listing :=
  ⟨readsBack md5 h, listsGroups h hmd5⟩

theorem groups_readBack_and_listed_nested :
    let calls : List (Str × GroupCall ℚ) := [("::a::b".toList, .checkAdd "c".toList true),
      ("::a".toList, .groupDurationAdd 1), ([], .checkAdd "d".toList false)]
    (collectRootGroupTree
      (convertGroup id (groupTree calls : GroupNode ℚ (List ℕ)).snapshot).toJson).ReadsBack id
        (placed calls) ∧
      ∃ listing, listing.map Prod.snd =
          GroupResource.flattenGroups id none (groupTree calls : GroupNode ℚ (List ℕ)).snapshot ∧
        ListsGroups id (placed calls) listing := by
  refine groups_readBack_and_listed ⟨by decide, fun call hcall name passed hcheck => ?_⟩
    (Set.injOn_id _)
  simp only [List.mem_cons, List.not_mem_nil, or_false] at hcall
  rcases hcall with rfl | rfl | rfl <;> cases hcheck <;> decide

end K6Rs
