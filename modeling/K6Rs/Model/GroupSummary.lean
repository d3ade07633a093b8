import K6Rs.Library.Json
import K6Rs.Model.Groups

/-! The group tree as the summary's JSON value, the walker that reads the value back, and the
listing of the groups in the REST API. -/

namespace K6Rs

/-! ## The JSON value -/

def jsonU64 (n : ℕ) : Json := .number (.posInt n)

def SummaryCheck.toJson (c : SummaryCheck) : Json :=
  .object [("fails".toList, jsonU64 c.fails), ("id".toList, .string c.id),
    ("name".toList, .string c.name), ("passes".toList, jsonU64 c.passes),
    ("path".toList, .string c.path)]

namespace SummaryGroup

mutual

def toJson : SummaryGroup → Json
  | .node group children =>
      .object [("checks".toList, .object (group.checks.entries.map fun e => (e.1, e.2.toJson))),
        ("groups".toList, .object (groupsToJson children)), ("id".toList, .string group.id),
        ("name".toList, .string group.name), ("path".toList, .string group.path)]

def groupsToJson : List (Str × SummaryGroup) → List (Str × Json)
  | [] => []
  | (key, child) :: rest => (key, toJson child) :: groupsToJson rest

end

end SummaryGroup

/-! ## The conformance walker -/

structure CanonicalGroup where
  name : Str
  path : Str
  id : Str
  deriving DecidableEq

structure CanonicalCheck where
  name : Str
  groupPath : Str
  id : Str
  passes : ℕ
  fails : ℕ
  deriving DecidableEq

/-- The maps that the walker fills, by path. -/
structure GroupMaps where
  groups : SortedMap Str CanonicalGroup
  checks : SortedMap Str CanonicalCheck

namespace GroupMaps

def empty : GroupMaps := ⟨∅, ∅⟩

def strOr (obj : List (Str × Json)) (key : Str) : Str :=
  ((obj.lookup key).bind Json.asStr).getD []

def u64Or (obj : List (Str × Json)) (key : Str) : ℕ :=
  ((obj.lookup key).bind Json.asU64).getD 0

def addGroup (obj : List (Str × Json)) (maps : GroupMaps) : GroupMaps :=
  let groupPath := strOr obj "path".toList
  { maps with
    groups := maps.groups.insert groupPath
      ⟨strOr obj "name".toList, groupPath, strOr obj "id".toList⟩ }

def addCheck (groupPath : Str) (maps : GroupMaps) (rawCheck : Str × Json) : GroupMaps :=
  match rawCheck.2.asObject with
  | none => maps
  | some c =>
      let name := strOr c "name".toList
      let path := ((c.lookup "path".toList).bind Json.asStr).getD (pushSegment groupPath name)
      { maps with
        checks := maps.checks.insert path
          { name, groupPath, id := strOr c "id".toList, passes := u64Or c "passes".toList,
            fails := u64Or c "fails".toList } }

def addChecks (obj : List (Str × Json)) (maps : GroupMaps) : GroupMaps :=
  (((obj.lookup "checks".toList).bind Json.asObject).getD []).foldl
    (addCheck (strOr obj "path".toList)) maps

mutual

def walkGroup (isRoot : Bool) : Json → GroupMaps → GroupMaps
  | .object obj, maps =>
      walkMember obj (addChecks obj (if isRoot then maps else addGroup obj maps))
  | _, maps => maps

/-- The children stand in the object of the member `groups`. -/
def walkMember : List (Str × Json) → GroupMaps → GroupMaps
  | [], maps => maps
  | (key, v) :: rest, maps =>
      if key = "groups".toList then walkValue v maps else walkMember rest maps

def walkValue : Json → GroupMaps → GroupMaps
  | .object groups, maps => walkGroups groups maps
  | _, maps => maps

def walkGroups : List (Str × Json) → GroupMaps → GroupMaps
  | [], maps => maps
  | (_, child) :: rest, maps => walkGroups rest (walkGroup false child maps)

end

end GroupMaps

def collectRootGroupTree (rootGroup : Json) : GroupMaps :=
  GroupMaps.walkGroup true rootGroup .empty

/-! ## The REST listing -/

/-- A listed group; the identities of its children and of its parent are references. -/
structure GroupResource where
  id : Str
  name : Str
  path : Str
  checks : List SummaryCheck
  groups : List Str
  parent : Option Str
  deriving DecidableEq

namespace GroupResource

variable {F : Type}

def ofGroup (md5 : Str → Str) (parent : Option Str) (group : GroupSnapshot F) : GroupResource where
  id := md5 group.value.path
  name := group.value.name
  path := group.value.path
  checks := group.value.checks.entries.map fun e =>
    let path := pushSegment group.value.path e.1
    { id := md5 path, name := e.1, path, passes := e.2.1, fails := e.2.2 }
  groups := group.children.map fun e => md5 e.2.value.path
  parent := parent

mutual

def flattenGroups (md5 : Str → Str) (parent : Option Str) :
    GroupSnapshot F → List GroupResource
  | .node group children =>
      ofGroup md5 parent (.node group children) :: flattenChildren md5 (md5 group.path) children

def flattenChildren (md5 : Str → Str) (id : Str) :
    List (Str × GroupSnapshot F) → List GroupResource
  | [] => []
  | (_, child) :: rest => flattenGroups md5 (some id) child ++ flattenChildren md5 id rest

end

end GroupResource

end K6Rs
