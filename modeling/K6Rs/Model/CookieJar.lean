import K6Rs.Library.JsHeap
import K6Rs.Library.StepSystem

/-! The cookie jar of a VU: which host it takes a URL to have, how responses store cookies
and how requests get them. Its maps are objects of the JavaScript engine. -/

namespace K6Rs

open Js

/-- The objects of the engine that the jar's maps inherit from, when a script starts. -/
structure Realm where
  heap : Heap
  /-- `Object.prototype`. -/
  objectProto : ℕ
  /-- `Function.prototype`. -/
  functionProto : ℕ
  /-- The functions `Object` and `Object.assign`. -/
  object : ℕ
  assign : ℕ
  /-- The name under which `Object.prototype` has a function. -/
  methodName : ℕ → Option Str
  size : objectProto < heap.size ∧ functionProto < heap.size
  objectRoot : (heap.obj objectProto).proto = none
  functionRoot : (heap.obj functionProto).proto = some objectProto
  protoAccessor : (heap.obj objectProto).own "__proto__".toList = some .proto
  methods : ∀ p ∈ (heap.obj objectProto).props, p.1 ≠ "__proto__".toList →
    ∃ r writable, p.2 = .data (.ref r) false writable ∧ methodName r = some p.1
  functions : ∀ r k, methodName r = some k → r < heap.size ∧ r ≠ objectProto ∧
    r ≠ functionProto ∧ (heap.obj r).proto = some functionProto
  hidden : ∀ r, r = objectProto ∨ r = functionProto ∨ (methodName r).isSome →
    ∀ p ∈ (heap.obj r).props,
      p.2.enumerable = false ∧ (p.2 = .proto → p.1 = "__proto__".toList)

/-- `url.match(/^https?:\/\/([^\/\:]+)/)`: the text that is taken for the host. -/
def urlDomain (url : Str) : Option Str :=
  let rest :=
    if "https://".toList.isPrefixOf url then some (url.drop 8)
    else if "http://".toList.isPrefixOf url then some (url.drop 7)
    else none
  rest.bind fun rest =>
    let domain := rest.takeWhile fun c => c ≠ '/' && c ≠ ':'
    if domain.isEmpty then none else some domain

/-- The headers that a script sees: an object whose values are the values of one name. -/
def headerGroups (headers : List (Str × Str)) : List (Str × List Str) :=
  (headers.map Prod.fst).eraseDups.map fun k => (k, (headers.filter (·.1 = k)).map Prod.snd)

/-- The name and the value of a `Set-Cookie` header. -/
def parseSetCookie (cookie : Str) : Option (Str × Str) :=
  match Str.splitOnce '=' cookie with
  | (_, none) => none
  | (name, some rest) => some (Str.trim name, Str.trim (rest.takeWhile (· ≠ ';')))

/-- The cookies of a response, in the order they are stored. -/
def setCookies (headers : List (Str × Str)) : List (Str × Str) :=
  ((headerGroups headers).filter fun group => Str.asciiLower group.1 = "set-cookie".toList).flatMap
    fun group => group.2.filterMap parseSetCookie

namespace CookieJar

variable (realm : Realm)

/-- `{}` and other objects made by a script. -/
def plain (props : List (Str × Slot)) : Obj := ⟨some realm.objectProto, props⟩

/-- The object `_cookies`. -/
def jar : ℕ := realm.heap.size

/-- The heap with an empty jar. -/
def new : Heap := (realm.heap.alloc (plain realm [])).2

/-- `if (!this._cookies[domain]) this._cookies[domain] = {}`. -/
def ensureDomain (h : Heap) (domain : Str) : Option Heap :=
  if (h.get (jar realm) domain).truthy then some h
  else
    let (r, h) := h.alloc (plain realm [])
    h.put (jar realm) domain (.ref r)

/-- `Object.assign` is the function that the script started with. -/
def canAssign (h : Heap) : Bool := h.get realm.object "assign".toList = .ref realm.assign

/-- `{ value: value }`. -/
def cookieObj (value : Str) : Obj := plain realm [("value".toList, .data (.str value) true true)]

/-- `__cookieJar.set`; what it throws is caught. -/
def set (h : Heap) (domain name value : Str) : Heap :=
  match ensureDomain realm h domain with
  | none => h
  | some h =>
      match h.get (jar realm) domain with
      | .ref r =>
          if canAssign realm h then
            let (c, h) := h.alloc (cookieObj realm value)
            (h.put r name (.ref c)).getD h
          else h
      | _ => h

/-- The jar's part of `__extractCookies`. A header that `Object.prototype` lends to the
response comes after its own and stores nothing. -/
def extractCookies (h : Heap) (headers : List (Str × Str)) (url : Str) : Heap :=
  match urlDomain url with
  | none => h
  | some domain =>
      (setCookies headers).foldl (fun h cookie => set realm h domain cookie.1 cookie.2) h

/-- `cookiesForURL`, with the heap that a new `{}` is in. -/
def cookiesForURL (h : Heap) (url : Str) : Val × Heap :=
  let empty := h.alloc (plain realm [])
  match urlDomain url with
  | none => (.ref empty.1, empty.2)
  | some domain =>
      let cookies := h.get (jar realm) domain
      if cookies.truthy then (cookies, h) else (.ref empty.1, empty.2)

/-- `cookies[name].value`; there is no result where it throws. -/
def cookieValue (h : Heap) (cookies : ℕ) (name : Str) : Option Val :=
  match h.get cookies name with
  | .undefined => none
  | .null => none
  | .str _ => some (h.get realm.objectProto "value".toList)
  | .ref c => some (h.get c "value".toList)

/-- `__buildCookieHeader`: the names and values of its parts, none of them for no header. -/
def buildCookieHeader (h : Heap) (url : Str) : Option (List (Str × Val)) :=
  if (h.forIn (jar realm)).isEmpty then some []
  else
    match cookiesForURL realm h url with
    | (.ref cookies, h) =>
        (h.forIn cookies).mapM fun name => (cookieValue realm h cookies name).map (name, ·)
    | _ => some []

/-- A property of an object with the given own properties. -/
def headerProp (h : Heap) (headers : List (Str × Str)) (name : Str) : Val :=
  match headers.lookup name with
  | some v => .str v
  | none => h.get realm.objectProto name

/-- The jar's part of `_prep`: the cookies of the jar that the request carries. -/
def attached (h : Heap) (url : Str) (headers : List (Str × Str)) : Option (List (Str × Val)) :=
  if canAssign realm h then
    (buildCookieHeader realm h url).map fun parts =>
      if (headerProp realm h headers "Cookie".toList).truthy ||
          (headerProp realm h headers "cookie".toList).truthy then []
      else parts
  else none

/-- `parts.join('; ')`. -/
def cookieText (parts : List (Str × Val)) : Str :=
  "; ".toList.intercalate (parts.map fun part => part.1 ++ '=' :: part.2.text)

/-- The `Cookie` header of the request that `_prep` makes; `cookies` is the parameter of that
name. -/
def cookieHeader (h : Heap) (url : Str) (headers : List (Str × Str)) (cookies : List (Str × Str)) :
    Option (Option Str) :=
  (attached realm h url headers).map fun parts =>
    if cookies.isEmpty then
      if parts.isEmpty then headers.lookup "Cookie".toList else some (cookieText parts)
    else
      let given :=
        if parts.isEmpty then headerProp realm h headers "Cookie".toList
        else .str (cookieText parts)
      some ((if given.truthy then given.text ++ "; ".toList else []) ++
        cookieText (cookies.map fun cookie => (cookie.1, .str cookie.2)))

end CookieJar

structure JarResponse where
  url : Str
  headers : List (Str × Str)

/-- A cookie of the jar on a request, with the responses before it. -/
structure AttachedCookie where
  url : Str
  name : Str
  value : Val
  earlier : List JarResponse

structure JarState where
  heap : Heap
  responses : List JarResponse
  attached : List AttachedCookie

inductive JarEvent where
  | response (response : JarResponse)
  | request (url : Str) (headers : List (Str × Str))

/-- The responses and requests of a VU. -/
def jarSystem (realm : Realm) : StepSystem JarState JarEvent where
  init s := s = ⟨CookieJar.new realm, [], []⟩
  step s
    | .response response =>
        some { s with
          heap := CookieJar.extractCookies realm s.heap response.headers response.url
          responses := response :: s.responses }
    | .request url headers =>
        (CookieJar.attached realm s.heap url headers).map fun parts =>
          { s with
            attached := (parts.map fun part => ⟨url, part.1, part.2, s.responses⟩) ++ s.attached }

end K6Rs
