import K6Rs.Library.JsonParse

/-! The HTML functions: elements are found in a document or in a fragment, handed to the script as
JSON text, and asked again through their outer HTML. -/

namespace K6Rs

/-- A node of a parsed document; a comment or the like has a text of its own. -/
inductive HtmlTree where
  | element (tag : Str) (attrs : List (Str × Str)) (children : List HtmlTree)
  | text (content : Str)
  | other (content : Str)

/-- The way from a node to one below it, by the positions of children. -/
abbrev HtmlPath := List ℕ

namespace HtmlTree

def isElement : HtmlTree → Bool
  | .element .. => true
  | _ => false

def attrs : HtmlTree → List (Str × Str)
  | .element _ attrs _ => attrs
  | _ => []

def nodeAt : HtmlTree → HtmlPath → Option HtmlTree
  | node, [] => some node
  | .element _ _ children, i :: path =>
      match children[i]? with
      | some child => child.nodeAt path
      | none => none
  | _, _ :: _ => none

mutual

/-- The text nodes at and below a node. -/
def allText : HtmlTree → Str
  | .element _ _ children => allTextOf children
  | .text content => content
  | .other _ => []

def allTextOf : List HtmlTree → Str
  | [] => []
  | child :: rest => child.allText ++ allTextOf rest

end

mutual

/-- The elements at and below a node, in their order in the document. -/
def elementPaths : HtmlTree → List HtmlPath
  | .element _ _ children => [] :: elementPathsFrom 0 children
  | _ => []

def elementPathsFrom (i : ℕ) : List HtmlTree → List HtmlPath
  | [] => []
  | child :: rest => child.elementPaths.map (i :: ·) ++ elementPathsFrom (i + 1) rest

end

end HtmlTree

/-- What a script has of an element. -/
structure HtmlRecord where
  html : Str
  text : Str
  outerHtml : Str
  attrs : List (Str × Str)

/-- The parser, the serialiser and the selectors. A parser returns the root element; that of a
fragment has its nodes as children. A selector tells of the element at a path of a document whether
it matches. -/
structure HtmlLib where
  parseDocument : Str → HtmlTree
  parseFragment : Str → HtmlTree
  innerHtml : HtmlTree → Str
  outerHtml : HtmlTree → Str
  parseSelector : Str → Option (HtmlTree → HtmlPath → Bool)

namespace HtmlLib

variable (lib : HtmlLib)

def record (el : HtmlTree) : HtmlRecord where
  html := lib.innerHtml el
  text := el.allText
  outerHtml := lib.outerHtml el
  attrs := el.attrs

/-- `doc.select(&sel)`; a text that is no selector selects nothing. -/
def select (doc : HtmlTree) (selector : Str) : List HtmlPath :=
  match lib.parseSelector selector with
  | none => []
  | some sel => doc.elementPaths.filter (sel doc)

def recordsAt (doc : HtmlTree) (paths : List HtmlPath) : List HtmlRecord :=
  paths.filterMap fun path => (doc.nodeAt path).map lib.record

def htmlFind (htmlStr selector : Str) : List HtmlRecord :=
  let doc := lib.parseDocument htmlStr
  lib.recordsAt doc (lib.select doc selector)

def htmlFindInFragment (htmlStr selector : Str) : List HtmlRecord :=
  let doc := lib.parseFragment htmlStr
  lib.recordsAt doc (lib.select doc selector)

def htmlRootElements (htmlStr : Str) : List HtmlRecord := [lib.record (lib.parseDocument htmlStr)]

end HtmlLib

/-! ## JSON -/

/-- A member of an object, the key as it is. -/
def memberJson (key text : Str) : Str := '"' :: (key ++ '"' :: ':' :: text)

def attrJson (attr : Str × Str) : Str := memberJson attr.1 (JsonText.string attr.2)

def attrsJson (attrs : List (Str × Str)) : Str :=
  '{' :: ([','].intercalate (attrs.map attrJson) ++ ['}'])

def recordJson (record : HtmlRecord) : Str :=
  '{' :: ([','].intercalate [memberJson "html".toList (JsonText.string record.html),
    memberJson "text".toList (JsonText.string record.text),
    memberJson "outerHtml".toList (JsonText.string record.outerHtml),
    memberJson "attrs".toList (attrsJson record.attrs)] ++ ['}'])

/-- The text that the three functions return. -/
def recordsJson (records : List HtmlRecord) : Str :=
  '[' :: ([','].intercalate (records.map recordJson) ++ [']'])

/-- `element.outerHtml`, of an object that `JSON.parse` has made. -/
def outerHtmlOf (element : JsonTree) : Option Str :=
  match element with
  | .object members =>
      match JsonTree.lastValue members "outerHtml".toList with
      | some (.string html) => some html
      | _ => none
  | _ => none

/-! ## Selections -/

/-- The array that `JSON.parse` makes of the text of elements, where it does not throw. -/
def parseRecords (records : List HtmlRecord) : Option (List JsonTree) :=
  match JsonTree.parse (recordsJson records) with
  | some (.array items) => some items
  | _ => none

namespace HtmlLib

variable (lib : HtmlLib)

/-- `JSON.parse(__html_find_in_fragment(element.outerHtml, selector))`. -/
def findInElement (element : JsonTree) (selector : Str) : Option (List JsonTree) :=
  (outerHtmlOf element).bind fun htmlStr => parseRecords (lib.htmlFindInFragment htmlStr selector)

def find (selector : Str) : List JsonTree → Option (List JsonTree)
  | [] => some []
  | element :: rest => do
      let found ← lib.findInElement element selector
      let results ← find selector rest
      return found ++ results

def filter (selector : Str) : List JsonTree → Option (List JsonTree)
  | [] => some []
  | element :: rest => do
      let found ← lib.findInElement element selector
      let results ← filter selector rest
      return if 0 < found.length then element :: results else results

def is (selector : Str) : List JsonTree → Option Bool
  | [] => some false
  | element :: rest => do
      let found ← lib.findInElement element selector
      if 0 < found.length then return true
      else is selector rest

/-- The elements of the selection that `parseHTML` returns. -/
def parseHtml (html : Str) : Option (List JsonTree) := parseRecords (lib.htmlRootElements html)

/-- The `find` of that selection. -/
def findInDocument (html selector : Str) : Option (List JsonTree) :=
  parseRecords (lib.htmlFind html selector)

end HtmlLib

end K6Rs
