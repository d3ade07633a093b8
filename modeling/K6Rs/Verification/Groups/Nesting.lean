import K6Rs.Verification.Groups.Tree

/-! Groups by their nesting. A script's calls belong to the names of the groups around them; the
tree keeps them apart exactly when the split of a joined path gives the names back. -/

namespace K6Rs

open FloatOps Str

/-! ## The calls of a script -/

namespace JsStmt

variable {F : Type}

mutual

/-- The calls of a statement with the names of the groups around each, and whether the
statement completes. -/
def calls (names : List Str) : JsStmt F → List (List Str × GroupCall F) × Bool
  | .group name body durationMs =>
      let inner := names ++ [name]
      let (made, completed) := callsOfBody inner body
      ((inner, .groupRegister) :: made ++ [(inner, .groupDurationAdd durationMs)], completed)
  | .check checks => (callsOfChecks names checks, true)
  | .throw => ([], false)
  | .attempt body => ((callsOfBody names body).1, true)

def callsOfBody (names : List Str) : List (JsStmt F) → List (List Str × GroupCall F) × Bool
  | [] => ([], true)
  | stmt :: rest =>
      match calls names stmt with
      | (made, true) =>
          let (more, completed) := callsOfBody names rest
          (made ++ more, completed)
      | (made, false) => (made, false)

def callsOfChecks (names : List Str) :
    List (Str × List (JsStmt F) × Bool) → List (List Str × GroupCall F)
  | [] => []
  | (name, body, answer) :: rest =>
      let (made, completed) := callsOfBody names body
      made ++ (names, .checkAdd name (completed && answer)) :: callsOfChecks names rest

end

end JsStmt

/-- The calls of a script; outside of any group there are no names. -/
def scriptCalls {F : Type} (script : List (JsStmt F)) : List (List Str × GroupCall F) :=
  (JsStmt.callsOfBody [] script).1

/-- The calls with the paths that the bridge gives to the registry. -/
def joinPaths {F : Type} (calls : List (List Str × GroupCall F)) : List (Str × GroupCall F) :=
  calls.map fun call => (joinDoubled ':' call.1, call.2)

/-! ## Names that are given back -/

/-- No name is empty or has two colons in a row, and a name that has a group inside it does not
end with a colon. -/
def SplitBack (names : List Str) : Prop := [] ∉ names ∧ Separable ':' names

theorem splitBack_segments (path : Str) : SplitBack (groupPathSegments path) := by
  rw [groupPathSegments]
  split
  · exact ⟨List.not_mem_nil, trivial⟩
  · refine ⟨fun h => ?_, (separable_splitDoubled path).sublist List.filter_sublist⟩
    simp at h

theorem SplitBack.initial {names more : List Str} (h : SplitBack more) (hpre : names <+: more) :
    SplitBack names :=
  ⟨fun hempty => h.1 (hpre.subset hempty), h.2.sublist hpre.sublist⟩

theorem segments_join {names : List Str} (h : SplitBack names) :
    groupPathSegments (joinDoubled ':' names) = names := by
  cases names with
  | nil => rfl
  | cons name names =>
      rw [groupPathSegments, if_neg (by simp [joinDoubled]),
        splitDoubled_joinDoubled (List.cons_ne_nil _ _) h.2, List.filter_cons_of_neg (by simp),
        List.filter_eq_self]
      intro s hs
      simpa using fun hempty : s = [] => h.1 (hempty ▸ hs)

/-- Names without colons are given back, unless one is empty. -/
theorem splitBack_of_plain {names : List Str} (h : ∀ name ∈ names, name ≠ [] ∧ ':' ∉ name) :
    SplitBack names := by
  refine ⟨fun hempty => (h [] hempty).1 rfl, ?_⟩
  induction names with
  | nil => exact trivial
  | cons name names ih =>
      obtain ⟨hname, hnames⟩ := List.forall_mem_cons.mp h
      exact separable_cons (single_append_of_not_mem hname.2) (ih hnames)

theorem placed_joinPaths {F : Type} {calls : List (List Str × GroupCall F)}
    (h : ∀ names, Reached calls names → SplitBack names) : placed (joinPaths calls) = calls := by
  rw [placed, joinPaths, List.map_map]
  conv_rhs => rw [← List.map_id calls]
  refine List.map_congr_left fun call hcall => ?_
  have hback := segments_join (h call.1 (.inr ⟨call, hcall, List.prefix_rfl⟩))
  simp [hback]

/-! ## The run of a script -/

variable {F H : Type} [FloatOps F] [Histogram F H]

namespace JsState

/-- The state after calls at their joined paths. -/
def after (s : JsState F H) (calls : List (List Str × GroupCall F)) : JsState F H :=
  calls.foldl (fun s call => s.call (joinDoubled ':' call.1) call.2) s

theorem after_cons (s : JsState F H) (call : List Str × GroupCall F)
    (calls : List (List Str × GroupCall F)) :
    s.after (call :: calls) = (s.call (joinDoubled ':' call.1) call.2).after calls := rfl

theorem after_append (s : JsState F H) (calls more : List (List Str × GroupCall F)) :
    s.after (calls ++ more) = (s.after calls).after more := List.foldl_append

@[simp] theorem currentGroupPath_after (s : JsState F H) (calls : List (List Str × GroupCall F)) :
    (s.after calls).currentGroupPath = s.currentGroupPath := by
  induction calls generalizing s with
  | nil => rfl
  | cons call calls ih => exact ih _

theorem tree_after (s : JsState F H) (calls : List (List Str × GroupCall F)) :
    (s.after calls).tree =
      (joinPaths calls).foldl (fun tree call => call.2.apply call.1 tree) s.tree := by
  induction calls generalizing s with
  | nil => rfl
  | cons call calls ih => exact ih _

theorem setPath_after (s : JsState F H) (path : Str) (calls : List (List Str × GroupCall F)) :
    { s.after calls with currentGroupPath := path } =
      { s with currentGroupPath := path }.after calls := by
  induction calls generalizing s with
  | nil => rfl
  | cons call calls ih => exact ih _

mutual

/-- A statement makes its calls at the joined paths and puts the path of the groups around it
back, whether it completes or not. -/
theorem runStmt_eq (names : List Str) (stmt : JsStmt F) (s : JsState F H)
    (h : s.currentGroupPath = joinDoubled ':' names) :
    runStmt stmt s = (s.after (stmt.calls names).1, (stmt.calls names).2) := by
  cases stmt with
  | group name body durationMs =>
      have hpath : pushSegment s.currentGroupPath name = joinDoubled ':' (names ++ [name]) := by
        simp [h, pushSegment, joinDoubled]
      have hbody := runStmts_eq (names ++ [name]) body
        ({ s with currentGroupPath := joinDoubled ':' (names ++ [name]) }.call
          (joinDoubled ':' (names ++ [name])) .groupRegister) rfl
      simp only [runStmt, hpath, hbody, setPath_after, JsStmt.calls]
      rw [List.cons_append, after_cons, after_append]
      rfl
  | check checks =>
      rw [runStmt, h, runChecks_eq names checks s h]
      rfl
  | throw => rfl
  | attempt body =>
      rw [runStmt, runStmts_eq names body s h]
      rfl

theorem runStmts_eq (names : List Str) (body : List (JsStmt F)) (s : JsState F H)
    (h : s.currentGroupPath = joinDoubled ':' names) :
    runStmts body s =
      (s.after (JsStmt.callsOfBody names body).1, (JsStmt.callsOfBody names body).2) := by
  match body with
  | [] => rfl
  | stmt :: rest =>
      have hstmt := runStmt_eq names stmt s h
      rw [runStmts, JsStmt.callsOfBody, hstmt]
      cases hcalls : stmt.calls names with
      | mk made completed =>
          cases completed with
          | false => rfl
          | true =>
              dsimp only
              rw [runStmts_eq names rest _ (by rw [currentGroupPath_after, h]), after_append]

theorem runChecks_eq (names : List Str) (checks : List (Str × List (JsStmt F) × Bool))
    (s : JsState F H) (h : s.currentGroupPath = joinDoubled ':' names) :
    runChecks (joinDoubled ':' names) checks s = s.after (JsStmt.callsOfChecks names checks) := by
  match checks with
  | [] => rfl
  | (name, body, answer) :: rest =>
      have hbody := runStmts_eq names body s h
      rw [runChecks, JsStmt.callsOfChecks, hbody]
      dsimp only
      rw [runChecks_eq names rest _ (by rw [call, currentGroupPath_after, h]), after_append]
      rfl

end

end JsState

/-- A script leaves the tree of its calls at their joined paths. -/
theorem runScript_eq (script : List (JsStmt F)) :
    (runScript script : GroupNode F H) = groupTree (joinPaths (scriptCalls script)) := by
  rw [runScript, JsState.runStmts_eq [] script .new rfl]
  exact JsState.tree_after _ _

/-! ## Nestings in the tree -/

/-- The tree keeps the nestings of calls apart, and reports each with what was recorded there.
A nesting that was reached is one of a group that was entered, or of no group. -/
structure KeepsNestings (md5 : Str → Str) (calls : List (List Str × GroupCall F))
    (tree : GroupNode F H) : Prop where
  apart : ∀ names names', Reached calls names → Reached calls names' → names ≠ names' →
    groupPathSegments (joinDoubled ':' names) ≠ groupPathSegments (joinDoubled ':' names')
  paths : ∀ place name parent node, tree.at? place = some parent → parent.at? [name] = some node →
    node.value.name = name ∧ node.value.path = pushSegment parent.value.path name
  read : ∀ names, Reached calls names → ∀ check,
    tree.checkGet (joinDoubled ':' names) check =
      (countAt calls names check true, countAt calls names check false)
  reported : ∀ names, Reached calls names →
    ∃ group, (convertGroup md5 tree.snapshot).at? names = some group ∧ ∀ check,
      (group.value.checks.find? check).map (fun c => (c.passes, c.fails)) =
        (recordAt calls names check).map fun r => (r.passes, r.fails)
  no_other : ∀ names, ((convertGroup md5 tree.snapshot).at? names).isSome → Reached calls names

/-- The nestings of calls are kept when their names are given back. -/
theorem keepsNestings_of_splitBack (md5 : Str → Str) {calls : List (List Str × GroupCall F)}
    (h : ∀ names, Reached calls names → SplitBack names) :
    KeepsNestings md5 calls (groupTree (joinPaths calls) : GroupNode F H) := by
  have hmirrors := GroupNode.mirrors_groupTree (F := F) (H := H) (joinPaths calls)
  rw [placed_joinPaths h] at hmirrors
  refine ⟨fun names names' hnames hnames' hne => ?_, fun _ _ _ _ => hmirrors.path_child,
    fun names hnames check => ?_, fun names hnames => ?_, fun names hsome => ?_⟩
  · rwa [segments_join (h names hnames), segments_join (h names' hnames')]
  · rw [hmirrors.checkGet, segments_join (h names hnames)]
  · obtain ⟨group, hgroup⟩ :=
      Option.isSome_iff_exists.mp ((hmirrors.at?_summary md5 names).mpr hnames)
    refine ⟨group, hgroup, fun check => ?_⟩
    rw [(hmirrors.value_summary hgroup).2.2.2 check, Option.map_map]
    rfl
  · exact (hmirrors.at?_summary md5 names).mp hsome

/-- A nesting that is reported under its names was given back by the split of a path. -/
theorem KeepsNestings.splitBack {md5 : Str → Str} {calls : List (List Str × GroupCall F)}
    (h : KeepsNestings md5 calls (groupTree (joinPaths calls) : GroupNode F H)) {names : List Str}
    (hnames : Reached calls names) : SplitBack names := by
  obtain ⟨group, hgroup, _⟩ := h.reported names hnames
  have hreached : Reached (placed (joinPaths calls)) names :=
    ((GroupNode.mirrors_groupTree (F := F) (H := H) _).at?_summary md5 names).mp (by simp [hgroup])
  rcases hreached with rfl | ⟨w, hw, hpre⟩
  · exact ⟨List.not_mem_nil, trivial⟩
  · obtain ⟨call, _, rfl⟩ := List.mem_map.mp hw
    exact (splitBack_segments call.1).initial hpre

/-- A script's groups and checks are kept apart and reported with their counts exactly when no
group name is empty or has two colons in a row, and none that has a group inside it ends with a
colon. -/
theorem nestings_kept_iff (md5 : Str → Str) (script : List (JsStmt F)) :
    KeepsNestings md5 (scriptCalls script) (runScript script : GroupNode F H) ↔
      ∀ names, Reached (scriptCalls script) names → SplitBack names := by
  rw [runScript_eq]
  exact ⟨fun h _ => h.splitBack, keepsNestings_of_splitBack md5⟩

/-- A check in a group whose name has the separator is counted in the group that the parts of the
name nest. -/
theorem separator_in_name_merges : ¬KeepsNestings (F := ℚ) (H := List ℕ) id
    (scriptCalls [.group "a::b".toList [.check [("c".toList, [], true)]] 1,
      .group "a".toList [.group "b".toList [.check [("c".toList, [], false)]] 1] 1])
    (runScript [.group "a::b".toList [.check [("c".toList, [], true)]] 1,
      .group "a".toList [.group "b".toList [.check [("c".toList, [], false)]] 1] 1]) := by
  intro h
  refine h.apart ["a::b".toList] ["a".toList, "b".toList] ?_ ?_ (by decide) (by decide)
  · exact .inr ⟨(["a::b".toList], .groupRegister), .head _, List.prefix_rfl⟩
  · exact .inr ⟨(["a".toList, "b".toList], .groupRegister),
      by simp [scriptCalls, JsStmt.callsOfBody, JsStmt.calls], List.prefix_rfl⟩

end K6Rs
