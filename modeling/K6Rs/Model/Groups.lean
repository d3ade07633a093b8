import K6Rs.Library.KeyTree
import K6Rs.Model.Metrics

/-! The group tree of a run. A script nests groups and makes checks, the bridge joins the names
of the open groups to a path, and the registry splits the path to find the node. -/

namespace K6Rs

open FloatOps

structure CheckRecord where
  passes : ℕ
  fails : ℕ
  deriving DecidableEq

/-- What a node of the group tree holds besides its children. -/
structure GroupData (F H : Type) [FloatOps F] where
  name : Str
  path : Str
  checks : SortedMap Str CheckRecord
  groupDuration : TrendMetric F H

/-- The children of a node stand under the names of their groups. -/
abbrev GroupNode (F H : Type) [FloatOps F] := KeyTree Str (GroupData F H)

structure GroupSnapshotData (F : Type) where
  name : Str
  path : Str
  checks : SortedMap Str (ℕ × ℕ)
  duration : Option (TrendStats F)

abbrev GroupSnapshot (F : Type) := KeyTree Str (GroupSnapshotData F)

/-- `path + "::" + name`. -/
def pushSegment (path name : Str) : Str := path ++ ':' :: ':' :: name

def groupPathSegments (groupPath : Str) : List Str :=
  if groupPath.isEmpty then []
  else (Str.splitDoubled ':' groupPath).filter fun s => !s.isEmpty

variable {F H : Type} [FloatOps F] [Histogram F H]

namespace GroupData

def child (name path : Str) : GroupData F H := ⟨name, path, ∅, .new⟩

def checkAdd (name : Str) (passed : Bool) (node : GroupData F H) : GroupData F H :=
  let record := (node.checks.find? name).getD ⟨0, 0⟩
  { node with
    checks := node.checks.insert name
      (if passed then { record with passes := record.passes + 1 }
       else { record with fails := record.fails + 1 }) }

def snapshot (node : GroupData F H) : GroupSnapshotData F where
  name := node.name
  path := node.path
  checks := node.checks.mapValues fun _ r => (r.passes, r.fails)
  duration := if node.groupDuration.count = 0 then none else some node.groupDuration.stats

end GroupData

namespace GroupNode

def root : GroupNode F H := .leaf (.child [] [])

/-- The tree with `use` applied to the node at `segments`. -/
def navigateOrCreate (segments : List Str) (use : GroupData F H → GroupData F H)
    (tree : GroupNode F H) : GroupNode F H :=
  tree.visit pushSegment GroupData.child use segments tree.value.path

def checkAdd (groupPath name : Str) (passed : Bool) (tree : GroupNode F H) : GroupNode F H :=
  navigateOrCreate (groupPathSegments groupPath) (.checkAdd name passed) tree

def groupRegister (groupPath : Str) (tree : GroupNode F H) : GroupNode F H :=
  if groupPath.isEmpty then tree else navigateOrCreate (groupPathSegments groupPath) id tree

def groupDurationAdd (groupPath : Str) (durationMs : F) (tree : GroupNode F H) :
    GroupNode F H :=
  navigateOrCreate (groupPathSegments groupPath)
    (fun node => { node with groupDuration := node.groupDuration.record durationMs }) tree

def checkGet (groupPath name : Str) (tree : GroupNode F H) : ℕ × ℕ :=
  match tree.at? (groupPathSegments groupPath) with
  | none => (0, 0)
  | some cursor =>
      match cursor.value.checks.find? name with
      | none => (0, 0)
      | some r => (r.passes, r.fails)

def snapshot (tree : GroupNode F H) : GroupSnapshot F := tree.map GroupData.snapshot

end GroupNode

/-- A write to the node of a path. -/
inductive GroupCall (F : Type) where
  | checkAdd (name : Str) (passed : Bool)
  | groupRegister
  | groupDurationAdd (durationMs : F)

def GroupCall.apply (groupPath : Str) : GroupCall F → GroupNode F H → GroupNode F H
  | .checkAdd name passed => GroupNode.checkAdd groupPath name passed
  | .groupRegister => GroupNode.groupRegister groupPath
  | .groupDurationAdd durationMs => GroupNode.groupDurationAdd groupPath durationMs

/-- The tree after writes to the paths they name, in their order. -/
def groupTree (calls : List (Str × GroupCall F)) : GroupNode F H :=
  calls.foldl (fun tree call => call.2.apply call.1 tree) .root

/-! ## The summary's tree -/

structure SummaryCheck where
  name : Str
  path : Str
  id : Str
  passes : ℕ
  fails : ℕ
  deriving DecidableEq

structure SummaryGroupData where
  name : Str
  path : Str
  id : Str
  checks : SortedMap Str SummaryCheck

abbrev SummaryGroup := KeyTree Str SummaryGroupData

def GroupSnapshotData.convert (md5 : Str → Str) (snap : GroupSnapshotData F) :
    SummaryGroupData where
  name := snap.name
  path := snap.path
  id := md5 snap.path
  checks := snap.checks.mapValues fun name counts =>
    let checkPath := pushSegment snap.path name
    { name, path := checkPath, id := md5 checkPath, passes := counts.1, fails := counts.2 }

def convertGroup (md5 : Str → Str) (snap : GroupSnapshot F) : SummaryGroup :=
  snap.map (GroupSnapshotData.convert md5)

/-! ## Scripts -/

/-- The calls a script makes. A predicate of a check makes calls of its own before it answers;
`throw` throws, and `attempt` catches what its body throws. -/
inductive JsStmt (F : Type) where
  | group (name : Str) (body : List (JsStmt F)) (durationMs : F)
  | check (checks : List (Str × List (JsStmt F) × Bool))
  | throw
  | attempt (body : List (JsStmt F))

/-- The globals of a script that `group` and `check` use, and the tree they write to. -/
structure JsState (F H : Type) [FloatOps F] where
  currentGroupPath : Str
  tree : GroupNode F H

namespace JsState

def new : JsState F H := ⟨[], .root⟩

def call (s : JsState F H) (groupPath : Str) (c : GroupCall F) : JsState F H :=
  { s with tree := c.apply groupPath s.tree }

mutual

/-- The state after a statement, and whether the statement completed without throwing. -/
def runStmt : JsStmt F → JsState F H → JsState F H × Bool
  | .group name body durationMs, s =>
      let prev := s.currentGroupPath
      let fullPath := pushSegment prev name
      let (s, completed) :=
        runStmts body ({ s with currentGroupPath := fullPath }.call fullPath .groupRegister)
      ({ s with currentGroupPath := prev }.call fullPath (.groupDurationAdd durationMs), completed)
  | .check checks, s => (runChecks s.currentGroupPath checks s, true)
  | .throw, s => (s, false)
  | .attempt body, s => ((runStmts body s).1, true)

def runStmts : List (JsStmt F) → JsState F H → JsState F H × Bool
  | [], s => (s, true)
  | stmt :: rest, s =>
      match runStmt stmt s with
      | (s, true) => runStmts rest s
      | (s, false) => (s, false)

/-- Predicates that throw have failed. -/
def runChecks (groupPath : Str) : List (Str × List (JsStmt F) × Bool) → JsState F H → JsState F H
  | [], s => s
  | (name, body, answer) :: rest, s =>
      let (s, completed) := runStmts body s
      runChecks groupPath rest (s.call groupPath (.checkAdd name (completed && answer)))

end

end JsState

/-- The group tree that a script leaves behind. -/
def runScript (script : List (JsStmt F)) : GroupNode F H :=
  (JsState.runStmts script .new).1.tree

end K6Rs
