import K6Rs.Library.Text
import K6Rs.Library.SortedMap

/-! Metric selectors: a metric name with an optional block of tags,
`name{k1:v1,k2:v2}`. -/

namespace K6Rs

/-- A tag map, in the order of its keys. -/
abbrev TagMap := SortedMap Str Str

structure MetricSelector where
  name : Str
  tags : TagMap
  deriving DecidableEq

inductive SelectorParseError where
  | emptyName
  | unbalancedBraces
  | invalidName (name : Str)
  | malformedTagPair (diagnostic : Str)
  deriving DecidableEq

/-- A character that `name` and tag keys may not contain. -/
def containsReserved (s : Str) : Bool :=
  s.any fun c => c == '{' || c == '}' || c == ':' || c == ','

def containsReservedValue (s : Str) : Bool := s.any fun c => c == ','

namespace MetricSelector

/-- The loop over the comma-separated pairs of a tag block. -/
def parsePairs : List Str → TagMap → Except SelectorParseError TagMap
  | [], tags => .ok tags
  | pair :: rest, tags =>
      let pairTrim := Str.trim pair
      if pairTrim.isEmpty then .error (.malformedTagPair pairTrim)
      else
        match Str.splitOnce ':' pairTrim with
        | (_, none) => .error (.malformedTagPair pairTrim)
        | (keyRaw, some valueRaw) =>
            let key := Str.trim keyRaw
            let value := Str.trim valueRaw
            if key.isEmpty then .error (.malformedTagPair pairTrim)
            else if containsReserved key || containsReservedValue value then
              .error (.malformedTagPair pairTrim)
            else if tags.contains key then
              .error (.malformedTagPair ("duplicate key: ".toList ++ key))
            else parsePairs rest (tags.insert key value)

/-- The tag block of the trimmed text `s`, which opens at `i`. -/
def parseTags (s : Str) (i : ℕ) : Except SelectorParseError TagMap :=
  match Str.rfind '}' s with
  | none => .error .unbalancedBraces
  | some close =>
      if close < i then .error .unbalancedBraces
      else if !(Str.trim (s.drop (close + 1))).isEmpty then .error .unbalancedBraces
      else
        let inner := Str.slice s (i + 1) close
        if (Str.trim inner).isEmpty then .ok ∅
        else parsePairs (inner.splitOn ',') ∅

def parse (s : Str) : Except SelectorParseError MetricSelector :=
  let s := Str.trim s
  if s.isEmpty then .error .emptyName
  else
    match Str.find '{' s with
    | none =>
        -- A stray closing brace is reported before the other reserved characters.
        if '}' ∈ s then .error .unbalancedBraces
        else if containsReserved s then .error (.invalidName s)
        else .ok ⟨s, ∅⟩
    | some i =>
        let name := Str.trim (s.take i)
        if name.isEmpty then .error .emptyName
        else if containsReserved name then .error (.invalidName name)
        else
          match parseTags s i with
          | .error e => .error e
          | .ok tags => .ok ⟨name, tags⟩

/-- One pair as the canonical form writes it. -/
def pairText (a : Str × Str) : Str := a.1 ++ ':' :: a.2

def canonical (m : MetricSelector) : Str :=
  if m.tags.isEmpty then m.name
  else m.name ++ '{' :: ([','].intercalate (m.tags.entries.map pairText) ++ ['}'])

end MetricSelector

/-! ## The tag suffix of a storage key -/

open MetricSelector

/-- The text of a list of tags: stably sorted by key, the last pair of each key. -/
def canonicalTagSuffix (tags : List (Str × Str)) : Str :=
  if tags.isEmpty then []
  else
    '{' :: ([','].intercalate
      ((SortedMap.lastOfRuns (SortedMap.sortByKey tags)).map pairText) ++ ['}'])

def canonicalKey (name suffix : Str) : Str :=
  if suffix.isEmpty then name else name ++ suffix

/-- `canonical_key` into a buffer, whose content is cleared first. -/
def writeCanonicalKey (_buf name suffix : Str) : Str :=
  let buf : Str := []
  let buf := buf ++ name
  buf ++ suffix

/-- The tag map that a list of tags denotes; the last value of a key wins. -/
def lastWins (tags : List (Str × Str)) : TagMap := SortedMap.ofList tags

end K6Rs
