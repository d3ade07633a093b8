import K6Rs.Library.KeyMap
import K6Rs.Library.Text

/-! The headers of a response as the script sees them: an object with a property for each name. The
object is taken as a finite map, in which a header `__proto__` is a name like any other. -/

namespace K6Rs

/-- A JavaScript array of texts, with `none` where an element was never set. -/
abbrev JsArray := List (Option Str)

/-- An array set at an index; the elements before it that are missing stay so. -/
def JsArray.setAt (arr : JsArray) (i : ℕ) (v : Str) : JsArray :=
  if i < arr.length then arr.set i (some v)
  else arr ++ List.replicate (i - arr.length) none ++ [some v]

inductive HeaderProperty where
  | text (v : Str)
  | array (vs : JsArray)
  deriving DecidableEq

/-- The array of a value and its later duplicates. -/
def duplicatesArray (v firstDup : Str) (dups : List Str) : JsArray :=
  let arr := JsArray.setAt (JsArray.setAt [] 0 v) 1 firstDup
  dups.zipIdx.foldl (fun arr (dv, idx) => arr.setAt (idx + 2) dv) arr

/-- The pass for the header at index `i`. -/
def emitHeader (headers : List (Str × Str)) (obj : KeyMap Str HeaderProperty) (i : ℕ) (k v : Str) :
    KeyMap Str HeaderProperty :=
  if (headers.take i).any fun p => p.1 == k then obj
  else
    match (headers.drop (i + 1)).filter fun n => n.1 == k with
    | (_, firstDup) :: dups =>
        obj.upsert k fun _ => .array (duplicatesArray v firstDup (dups.map Prod.snd))
    | [] => obj.upsert k fun _ => .text v

def buildHeadersObj (headers : List (Str × Str)) : KeyMap Str HeaderProperty :=
  headers.zipIdx.foldl (fun obj (h, i) => emitHeader headers obj i h.1 h.2) ∅

end K6Rs
