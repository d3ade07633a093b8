import K6Rs.Library.JsString
import K6Rs.Library.KeyMap

/-! The CSV parser of the shim, on the code units of its text. -/

namespace K6Rs

open JsString

/-- The loop of `_parseLine`, with whether it is in quotes and the current field. -/
def parseLineFrom (delimiter : UInt16) : Bool → JsString → JsString → List JsString
  | _, current, [] => [trim current]
  | true, current, [ch] =>
      if ch = quote then parseLineFrom delimiter false current []
      else parseLineFrom delimiter true (current ++ [ch]) []
  | true, current, ch :: next :: line =>
      if ch = quote then
        if next = quote then parseLineFrom delimiter true (current ++ [quote]) line
        else parseLineFrom delimiter false current (next :: line)
      else parseLineFrom delimiter true (current ++ [ch]) (next :: line)
  | false, current, ch :: line =>
      if ch = quote then parseLineFrom delimiter true current line
      else if ch = delimiter then trim current :: parseLineFrom delimiter false [] line
      else parseLineFrom delimiter false (current ++ [ch]) line

def parseLine (delimiter : UInt16) (line : JsString) : List JsString :=
  parseLineFrom delimiter false [] line

/-- The properties of an object of a script that are strings. -/
abbrev CsvObject := KeyMap JsString JsString

def protoKey : JsString := .ofBasic "__proto__".toList

/-- An assignment of a string; one to `__proto__` has no effect. -/
def setProperty (obj : CsvObject) (property : JsString × JsString) : CsvObject :=
  if property.1 = protoKey then obj else obj.upsert property.1 fun _ => property.2

/-- The object of a row; a value that the row does not have is empty. -/
def rowObject (headers values : List JsString) : CsvObject :=
  (headers.zipIdx.map fun (header, j) => (header, values.getD j [])).foldl setProperty ∅

/-- The object of a line that is not blank. -/
def csvRow (delimiter : UInt16) (headers : List JsString) (line : JsString) : Option CsvObject :=
  let line := trim line
  if line = [] then none else some (rowObject headers (parseLine delimiter line))

def csvParse (delimiter : UInt16) (csvString : JsString) : List CsvObject :=
  match csvString.splitOn lineFeed with
  | [] => []
  | first :: lines => lines.filterMap (csvRow delimiter (parseLine delimiter first))

end K6Rs
