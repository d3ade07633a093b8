import K6Rs.Library.DoubleError
import K6Rs.Model.InfluxDb

/-! # InfluxDB records

A reader splits a line at the free blanks, commas and equals signs and undoes the escapes. The
escapes keep names and tags apart from the delimiters; nothing is done about a line feed. -/

namespace K6Rs

open Escape InfluxDb

inductive FieldValue where
  | integer (n : ℕ)
  | float (x : Double)
  deriving DecidableEq

structure LineRecord where
  measurement : Str
  tags : List (Str × Str)
  fields : List (Str × FieldValue)
  timestamp : ℕ
  deriving DecidableEq

namespace LineRecord

/-- The characters that a reader undoes an escape of. -/
def special : List Char := ['=', ' ', ',', '\\']

def readNat (s : Str) : Option ℕ :=
  if s ≠ [] ∧ s.all FloatLit.isDigit = true then some (FloatLit.digits s) else none

/-- A value that ends with `i` is an integer. -/
def readValue (s : Str) : Option FieldValue :=
  if s.getLast? = some 'i' then (readNat s.dropLast).map .integer
  else (Double.readNumber s).map .float

/-- A key and what comes after its equals sign. -/
def readPair (s : Str) : Option (Str × Str) :=
  match splitFree '\\' '=' s with
  | [key, value] => some (unescape '\\' special key, value)
  | _ => none

def readTag (s : Str) : Option (Str × Str) :=
  (readPair s).map fun pair => (pair.1, unescape '\\' special pair.2)

def readField (s : Str) : Option (Str × FieldValue) := do
  let (key, value) ← readPair s
  return (key, ← readValue value)

def read (line : Str) : Option LineRecord :=
  match splitFree '\\' ' ' line with
  | [series, fields, timestamp] =>
      match splitFree '\\' ',' series with
      | [] => none
      | measurement :: tags => do
          return { measurement := unescape '\\' special measurement
                   tags := ← tags.mapM readTag
                   fields := ← (splitFree '\\' ',' fields).mapM readField
                   timestamp := ← readNat timestamp }
  | _ => none

end LineRecord

open LineRecord

/-- The text is one line, and is read as the record. -/
def ReadsAs (line : Str) (record : LineRecord) : Prop :=
  '\n' ∉ line ∧ LineRecord.read line = some record

/-- The fields of a value by their names. -/
def fieldsOf : MetricValue → List (Str × FieldValue)
  | .counter count rate => [("count".toList, .integer count), ("rate".toList, .float rate)]
  | .gauge value min max =>
      [("value".toList, .float value), ("min".toList, .float min), ("max".toList, .float max)]
  | .rate rate passes total =>
      [("rate".toList, .float rate), ("passes".toList, .integer passes),
        ("total".toList, .integer total)]
  | .trend avg min med max p90 p95 count =>
      [("avg".toList, .float avg), ("min".toList, .float min), ("med".toList, .float med),
        ("max".toList, .float max), ("p90".toList, .float p90), ("p95".toList, .float p95),
        ("count".toList, .integer count)]

def FieldValue.IsFinite : FieldValue → Prop
  | .integer _ => True
  | .float x => x.IsFinite

def FieldValue.text : FieldValue → Str
  | .integer n => natText n ++ ['i']
  | .float x => x.display

/-! ## The escapes -/

theorem escapeMeasurement_eq (s : Str) : escapeMeasurement s = escape '\\' [' ', ',', '\\'] s := by
  have hbackslash : replace '\\' "\\\\".toList s = escape '\\' ['\\'] s := replace_eq_escape s
  have hcomma : replace ',' "\\,".toList (escape '\\' ['\\'] s) = escape '\\' [',', '\\'] s :=
    replace_escape (by decide) (by decide) s
  have hblank : replace ' ' "\\ ".toList (escape '\\' [',', '\\'] s) =
      escape '\\' [' ', ',', '\\'] s :=
    replace_escape (by decide) (by decide) s
  rw [escapeMeasurement, hbackslash, hcomma, hblank]

theorem escapeTagOrFieldKey_eq (s : Str) : escapeTagOrFieldKey s = escape '\\' special s := by
  have hmeasurement := escapeMeasurement_eq s
  rw [escapeMeasurement] at hmeasurement
  rw [escapeTagOrFieldKey, hmeasurement]
  exact replace_escape (by decide) (by decide) s

theorem escapeTagValue_eq (s : Str) : escapeTagValue s = escape '\\' special s :=
  escapeTagOrFieldKey_eq s

/-! ## Values -/

theorem isDigit_natText {n : ℕ} : ∀ c ∈ natText n, FloatLit.isDigit c = true :=
  fun _ hc => FloatLit.isDigit_toDigits hc

theorem readNat_natText (n : ℕ) : readNat (natText n) = some n := by
  rw [readNat, if_pos ⟨Nat.toDigits_ne_nil, List.all_eq_true.mpr isDigit_natText⟩, natText,
    FloatLit.digits_toDigits]

/-- The characters of values, none of which is a delimiter. -/
theorem mem_text_cases {v : FieldValue} (hv : v.IsFinite) {c : Char} (hc : c ∈ v.text) :
    FloatLit.isDigit c = true ∨ c = '.' ∨ c = '-' ∨ c = 'i' := by
  cases v with
  | integer n =>
      rcases List.mem_append.mp hc with hc | hc
      · exact .inl (isDigit_natText c hc)
      · exact .inr (.inr (.inr (List.mem_singleton.mp hc)))
  | float x => exact (Double.mem_display hv hc).imp_right fun h => h.imp_right .inl

theorem not_mem_valueText {v : FieldValue} (hv : v.IsFinite) {c : Char}
    (hc : ¬(FloatLit.isDigit c = true ∨ c = '.' ∨ c = '-' ∨ c = 'i')) : c ∉ v.text :=
  fun hmem => hc (mem_text_cases hv hmem)

theorem readValue_text {v : FieldValue} (hv : v.IsFinite) : readValue v.text = some v := by
  cases v with
  | integer n =>
      rw [readValue, FieldValue.text, if_pos List.getLast?_concat, List.dropLast_concat,
        readNat_natText]
      rfl
  | float x =>
      have hlast : x.display.getLast? ≠ some 'i' := by
        intro h
        have hmem := Double.mem_display hv (List.mem_of_getLast? h)
        exact absurd hmem (by decide)
      rw [readValue, FieldValue.text, if_neg hlast, Double.readNumber_display hv]
      rfl

theorem closed_plain {d : Char} {s : Str} (hbackslash : '\\' ∉ s) (hd : d ∉ s) : Closed '\\' d s :=
  closed_of_plain fun _ hc => ⟨ne_of_mem_of_not_mem hc hbackslash, ne_of_mem_of_not_mem hc hd⟩

theorem closed_valueText {v : FieldValue} (hv : v.IsFinite) {d : Char} (hd : d ∈ special) :
    Closed '\\' d v.text := by
  have hspecial : ∀ c ∈ special, ¬(FloatLit.isDigit c = true ∨ c = '.' ∨ c = '-' ∨ c = 'i') :=
    List.all_iff_forall_prop.mp (by decide)
  exact closed_plain (not_mem_valueText hv (hspecial '\\' (by decide)))
    (not_mem_valueText hv (hspecial d hd))

/-! ## Pairs -/

/-- A pair of a key and a text, as tags and fields are written. -/
def pairLine (key value : Str) : Str := escape '\\' special key ++ '=' :: value

theorem readPair_pairLine (key : Str) {value : Str} (hvalue : Closed '\\' '=' value) :
    readPair (pairLine key value) = some (key, value) := by
  have hkey : Closed '\\' '=' (escape '\\' special key) := closed_escape (by decide) (by decide) key
  rw [readPair, pairLine, splitFree_append_cons (by decide) hkey, splitFree_self hvalue]
  simp only [unescape_escape (show '\\' ∈ special by decide) (List.Subset.refl special)]

theorem closed_pairLine {d : Char} (hd : d ∈ [' ', ',']) (key : Str) {value : Str}
    (hvalue : Closed '\\' d value) :
    Closed '\\' d (pairLine key value) := by
  have hspecial : ∀ c ∈ [' ', ','], c ∈ special ∧ '=' ≠ c := List.all_iff_forall_prop.mp (by decide)
  have hkey : Closed '\\' d (escape '\\' special key) :=
    closed_escape (by decide) (hspecial d hd).1 key
  have heq : Closed '\\' d ['='] := closed_singleton (by decide) (hspecial d hd).2
  exact hkey.append (heq.append hvalue)

def tagLine (tag : Str × Str) : Str := pairLine tag.1 (escape '\\' special tag.2)

def fieldLine (field : Str × FieldValue) : Str := pairLine field.1 field.2.text

theorem readTag_tagLine (tag : Str × Str) : readTag (tagLine tag) = some tag := by
  rw [readTag, tagLine, readPair_pairLine _ (closed_escape (by decide) (by decide) tag.2),
    Option.map_some, unescape_escape (by decide) (List.Subset.refl special)]

theorem readField_fieldLine {field : Str × FieldValue} (h : field.2.IsFinite) :
    readField (fieldLine field) = some field := by
  have hpair := readPair_pairLine field.1 (closed_valueText h (show '=' ∈ special by decide))
  rw [readField, fieldLine, hpair]
  simp only [Option.bind_eq_bind, Option.bind_some, readValue_text h, Option.pure_def]

/-! ## Lines -/

/-- The line of a record. -/
def lineText (record : LineRecord) : Str :=
  [','].intercalate (escape '\\' [' ', ',', '\\'] record.measurement :: record.tags.map tagLine) ++
    ' ' :: ([','].intercalate (record.fields.map fieldLine) ++ ' ' :: natText record.timestamp)

theorem mapM_map_self {α β : Type} {f : β → Option α} {g : α → β} {l : List α}
    (h : ∀ a ∈ l, f (g a) = some a) :
    (l.map g).mapM f = some l := by
  induction l with
  | nil => rfl
  | cons a l ih =>
      rw [List.forall_mem_cons] at h
      simp [List.mapM_cons, h.1, ih h.2]

theorem closed_series {record : LineRecord} {d : Char} (hd : d = ' ') :
    Closed '\\' d
      ([','].intercalate (escape '\\' [' ', ',', '\\'] record.measurement ::
        record.tags.map tagLine)) := by
  subst hd
  refine Closed.intercalate (closed_singleton (by decide) (by decide)) ?_
  rw [List.forall_mem_cons, List.forall_mem_map]
  refine ⟨closed_escape (by decide) (by decide) _, fun tag _ => ?_⟩
  exact closed_pairLine (by decide) tag.1 (closed_escape (by decide) (by decide) tag.2)

theorem closed_fieldLine {field : Str × FieldValue} (h : field.2.IsFinite) {d : Char}
    (hd : d ∈ [' ', ',']) :
    Closed '\\' d (fieldLine field) := by
  have hspecial : ∀ c ∈ [' ', ','], c ∈ special := List.all_iff_forall_prop.mp (by decide)
  exact closed_pairLine hd field.1 (closed_valueText h (hspecial d hd))

/-- A line is split into its three parts. -/
theorem splitFree_lineText {record : LineRecord} (h : ∀ field ∈ record.fields, field.2.IsFinite) :
    splitFree '\\' ' ' (lineText record) =
      [[','].intercalate (escape '\\' [' ', ',', '\\'] record.measurement ::
        record.tags.map tagLine), [','].intercalate (record.fields.map fieldLine),
          natText record.timestamp] := by
  have hfields : Closed '\\' ' ' ([','].intercalate (record.fields.map fieldLine)) := by
    refine Closed.intercalate (closed_singleton (by decide) (by decide)) ?_
    rw [List.forall_mem_map]
    exact fun field hfield => closed_fieldLine (h field hfield) (by decide)
  have htimestamp : Closed '\\' ' ' (natText record.timestamp) :=
    closed_plain (fun hmem => absurd (isDigit_natText _ hmem) (by decide))
      fun hmem => absurd (isDigit_natText _ hmem) (by decide)
  rw [lineText, splitFree_append_cons (by decide) (closed_series rfl),
    splitFree_append_cons (by decide) hfields, splitFree_self htimestamp]

theorem splitFree_series (record : LineRecord) :
    splitFree '\\' ',' ([','].intercalate
        (escape '\\' [' ', ',', '\\'] record.measurement :: record.tags.map tagLine)) =
      escape '\\' [' ', ',', '\\'] record.measurement :: record.tags.map tagLine := by
  refine splitFree_intercalate (by decide) (List.cons_ne_nil _ _) ?_
  rw [List.forall_mem_cons, List.forall_mem_map]
  refine ⟨closed_escape (by decide) (by decide) _, fun tag _ => ?_⟩
  exact closed_pairLine (by decide) tag.1 (closed_escape (by decide) (by decide) tag.2)

/-- A line with a field is read as its record. -/
theorem read_lineText {record : LineRecord} (h : ∀ field ∈ record.fields, field.2.IsFinite)
    (hne : record.fields ≠ []) : LineRecord.read (lineText record) = some record := by
  have htags : (record.tags.map tagLine).mapM readTag = some record.tags :=
    mapM_map_self fun tag _ => readTag_tagLine tag
  have hfields : (record.fields.map fieldLine).mapM readField = some record.fields :=
    mapM_map_self fun field hfield => readField_fieldLine (h field hfield)
  have hsplit : splitFree '\\' ',' ([','].intercalate (record.fields.map fieldLine)) =
      record.fields.map fieldLine := by
    refine splitFree_intercalate (by decide) (by simpa using hne) ?_
    rw [List.forall_mem_map]
    exact fun field hfield => closed_fieldLine (h field hfield) (by decide)
  have hmeasurement : unescape '\\' special (escape '\\' [' ', ',', '\\'] record.measurement) =
      record.measurement :=
    unescape_escape (by decide) (by decide) _
  rw [LineRecord.read, splitFree_lineText h]
  simp only [splitFree_series, htags, hsplit, hfields, hmeasurement, readNat_natText,
    Option.bind_eq_bind, Option.bind_some, Option.pure_def]

/-- Without a field the part between the blanks is empty, and no field. -/
theorem read_lineText_nil {record : LineRecord} (hnil : record.fields = []) :
    LineRecord.read (lineText record) = none := by
  have hfield :
      (splitFree '\\' ',' ([','].intercalate (record.fields.map fieldLine))).mapM readField =
      none := by
    rw [hnil]
    decide
  rw [LineRecord.read, splitFree_lineText (by simp [hnil])]
  simp only [splitFree_series, hfield, Option.bind_eq_bind, Option.bind_none, Option.bind_fun_none]

theorem lineFeed_not_mem_pairLine_iff {key value : Str} :
    '\n' ∉ pairLine key value ↔ '\n' ∉ key ∧ '\n' ∉ value := by
  rw [pairLine, List.mem_append, List.mem_cons, mem_escape_iff (by decide), not_or, not_or]
  simp

/-- A line has a line feed when a name or a tag has one. -/
theorem lineFeed_not_mem_lineText_iff {record : LineRecord}
    (h : ∀ field ∈ record.fields, field.2.IsFinite) :
    '\n' ∉ lineText record ↔
      '\n' ∉ record.measurement ∧ (∀ tag ∈ record.tags, '\n' ∉ tag.1 ∧ '\n' ∉ tag.2) ∧
        ∀ field ∈ record.fields, '\n' ∉ field.1 := by
  have htag (tag : Str × Str) : '\n' ∉ tagLine tag ↔ '\n' ∉ tag.1 ∧ '\n' ∉ tag.2 := by
    rw [tagLine, lineFeed_not_mem_pairLine_iff, mem_escape_iff (by decide)]
  have hfield : ∀ field ∈ record.fields, ('\n' ∉ fieldLine field ↔ '\n' ∉ field.1) := by
    intro field hmem
    rw [fieldLine, lineFeed_not_mem_pairLine_iff]
    exact and_iff_left (not_mem_valueText (h field hmem) (by decide))
  have htimestamp : '\n' ∉ natText record.timestamp :=
    fun hmem => absurd (isDigit_natText _ hmem) (by decide)
  have hne : '\n' ≠ ',' := by decide
  simp only [lineText, List.mem_append, List.mem_cons, mem_intercalate_iff hne, List.mem_map,
    exists_eq_or_imp, exists_exists_and_eq_and, mem_escape_iff (show '\n' ≠ '\\' by decide),
    not_or, not_exists, not_and]
  constructor
  · rintro ⟨⟨hmeasurement, htags⟩, -, hfields, -⟩
    exact ⟨hmeasurement, fun tag hmem => (htag tag).mp (htags tag hmem),
      fun field hmem => (hfield field hmem).mp (hfields field hmem)⟩
  · rintro ⟨hmeasurement, htags, hfields⟩
    exact ⟨⟨hmeasurement, fun tag hmem => (htag tag).mpr (htags tag hmem)⟩, by decide,
      fun field hmem => (hfield field hmem).mpr (hfields field hmem), by decide, htimestamp⟩

theorem readsAs_lineText_iff {record : LineRecord} (h : ∀ field ∈ record.fields, field.2.IsFinite) :
    ReadsAs (lineText record) record ↔
      record.fields ≠ [] ∧ '\n' ∉ record.measurement ∧
      (∀ tag ∈ record.tags, '\n' ∉ tag.1 ∧ '\n' ∉ tag.2) ∧
        ∀ field ∈ record.fields, '\n' ∉ field.1 := by
  rw [ReadsAs, lineFeed_not_mem_lineText_iff h, and_comm]
  apply and_congr_left'
  constructor
  · intro hread hnil
    rw [read_lineText_nil hnil] at hread
    cases hread
  · exact read_lineText h

/-! ## The records of the output -/

theorem tagsText_eq (tags : List (Str × Str)) :
    tagsText tags = (tags.map tagLine).flatMap (',' :: ·) := by
  rw [tagsText, List.flatMap_map]
  simp only [escapeTagOrFieldKey_eq, escapeTagValue_eq]
  rfl

theorem fieldText_eq (key : String) (v : FieldValue) :
    fieldText key v.text = fieldLine (key.toList, v) := by
  rw [fieldText, escapeTagOrFieldKey_eq]
  rfl

theorem fieldsText_eq (value : MetricValue) :
    fieldsText value = [','].intercalate ((fieldsOf value).map fieldLine) := by
  cases value <;>
    simp only [fieldsText, fieldsOf, List.map_cons, List.map_nil, intercalate_cons,
      List.flatMap_cons, List.flatMap_nil, ← fieldText_eq, FieldValue.text, List.append_nil,
      List.cons_append]

/-- The record of a sample, with its tags in the order in which they are visited. -/
def recordOf (order : HashOrder Str Str) (timestampNs : ℕ) (sample : MetricSample) :
    LineRecord where
  measurement := sample.metric
  tags := order.iter sample.tags
  fields := fieldsOf sample.value
  timestamp := timestampNs

theorem recordText_eq (order : HashOrder Str Str) (timestampNs : ℕ) (sample : MetricSample) :
    recordText order timestampNs sample = lineText (recordOf order timestampNs sample) := by
  rw [recordText, escapeMeasurement_eq, tagsText_eq, fieldsText_eq, lineText, intercalate_cons]
  rfl

theorem toLineProtocol_eq (measurement : Str) (tags : List (Str × Str))
    (fields : List (Str × Double))
    (timestampNs : ℕ) :
    toLineProtocol measurement tags fields timestampNs =
      lineText ⟨measurement, tags, fields.map fun field => (field.1, .float field.2),
        timestampNs⟩ := by
  rw [toLineProtocol, escapeMeasurement_eq, tagsText_eq, lineText, intercalate_cons, List.map_map]
  simp only [escapeTagOrFieldKey_eq]
  rfl

def MetricValue.IsFinite (value : MetricValue) : Prop := ∀ field ∈ fieldsOf value, field.2.IsFinite

/-- The record is read as the sample, with its tags in some order. -/
def ReadsSample (timestampNs : ℕ) (sample : MetricSample) (record : Str) : Prop :=
  ∃ tags, tags.Perm sample.tags.entries ∧
    ReadsAs record ⟨sample.metric, tags, fieldsOf sample.value, timestampNs⟩

/-- Neither the name nor a tag has a line feed. -/
def MetricSample.OneLine (sample : MetricSample) : Prop :=
  '\n' ∉ sample.metric ∧ ∀ tag ∈ sample.tags.entries, '\n' ∉ tag.1 ∧ '\n' ∉ tag.2

theorem readsSample_iff (order : HashOrder Str Str) (timestampNs : ℕ) {sample : MetricSample}
    (hfinite : sample.value.IsFinite) :
    ReadsSample timestampNs sample (recordText order timestampNs sample) ↔ sample.OneLine := by
  have hiff := @readsAs_lineText_iff (recordOf order timestampNs sample) hfinite
  have hnonempty : fieldsOf sample.value ≠ [] := by
    cases sample.value <;> exact List.cons_ne_nil _ _
  have hkeys : ∀ field ∈ fieldsOf sample.value, '\n' ∉ field.1 := by
    cases sample.value <;> simp [fieldsOf]
  have hvisited : (∀ tag ∈ order.iter sample.tags, '\n' ∉ tag.1 ∧ '\n' ∉ tag.2) ↔
      ∀ tag ∈ sample.tags.entries, '\n' ∉ tag.1 ∧ '\n' ∉ tag.2 := by
    simp only [(order.perm sample.tags).mem_iff]
  rw [MetricSample.OneLine, ← hvisited, recordText_eq]
  constructor
  · rintro ⟨tags, -, hline, -⟩
    have hnames := @lineFeed_not_mem_lineText_iff (recordOf order timestampNs sample) hfinite
    obtain ⟨hmetric, htags, -⟩ := hnames.mp hline
    exact ⟨hmetric, htags⟩
  · rintro ⟨hmetric, htags⟩
    exact ⟨_, order.perm sample.tags, hiff.mpr ⟨hnonempty, hmetric, htags, hkeys⟩⟩

/-- A snapshot adds one record for each of its samples. -/
theorem addSnapshot_reads_iff (order : HashOrder Str Str) {samples : List MetricSample}
    (hfinite : ∀ sample ∈ samples, sample.value.IsFinite) (elapsedSecs : Double)
    (buffer : List Str) :
    (∃ records, addSnapshot order samples elapsedSecs buffer = buffer ++ records ∧
        List.Forall₂ (ReadsSample (FloatOps.toU64 (FloatOps.mul elapsedSecs
          (FloatOps.ofRat 1000000000)))) samples records) ↔
      ∀ sample ∈ samples, sample.OneLine := by
  have hrecords (records : List Str) :
      addSnapshot order samples elapsedSecs buffer = buffer ++ records ↔
        samples.map (recordText order (FloatOps.toU64 (FloatOps.mul elapsedSecs
          (FloatOps.ofRat 1000000000)))) = records := by
    rw [addSnapshot, List.append_cancel_left_eq]
  simp only [hrecords, exists_eq_left', List.forall₂_map_right_iff, List.forall₂_same]
  exact forall₂_congr fun sample hsample => readsSample_iff order _ (hfinite sample hsample)

/-- A record is one line and read as the sample exactly when no name and no tag of it has a line
feed, and so for all records of a snapshot. The fields have names of their own; a list of fields
must not be empty, nor its names have a line feed. -/
theorem recordText_readsAs_iff (order : HashOrder Str Str) (timestampNs : ℕ)
    (sample : MetricSample) (measurement : Str)
    (tags : List (Str × Str)) (fields : List (Str × Double)) :
    (sample.value.IsFinite →
      ((∃ tags, tags.Perm sample.tags.entries ∧ ReadsAs (recordText order timestampNs sample)
          ⟨sample.metric, tags, fieldsOf sample.value, timestampNs⟩) ↔
        '\n' ∉ sample.metric ∧ ∀ tag ∈ sample.tags.entries, '\n' ∉ tag.1 ∧ '\n' ∉ tag.2)) ∧
    ((∀ field ∈ fields, field.2.IsFinite) →
      (ReadsAs (toLineProtocol measurement tags fields timestampNs)
          ⟨measurement, tags, fields.map fun field => (field.1, .float field.2), timestampNs⟩ ↔
        fields ≠ [] ∧ '\n' ∉ measurement ∧ (∀ tag ∈ tags, '\n' ∉ tag.1 ∧ '\n' ∉ tag.2) ∧
          ∀ field ∈ fields, '\n' ∉ field.1)) ∧
    ∀ (samples : List MetricSample) (elapsedSecs : Double) (buffer : List Str),
      (∀ sample ∈ samples, sample.value.IsFinite) →
        ((∃ records, addSnapshot order samples elapsedSecs buffer = buffer ++ records ∧
          List.Forall₂ (ReadsSample (FloatOps.toU64 (FloatOps.mul elapsedSecs
            (FloatOps.ofRat 1000000000)))) samples records) ↔
          ∀ sample ∈ samples, sample.OneLine) := by
  refine ⟨readsSample_iff order timestampNs, ?_, fun samples elapsedSecs buffer hfinite =>
    addSnapshot_reads_iff order hfinite elapsedSecs buffer⟩
  · intro hfinite
    have hiff := @readsAs_lineText_iff
      ⟨measurement, tags, fields.map fun field => (field.1, .float field.2), timestampNs⟩
      (by rw [List.forall_mem_map]; exact hfinite)
    rw [toLineProtocol_eq, hiff]
    simp only [ne_eq, List.map_eq_nil_iff, List.forall_mem_map]

/-- A counter with one tag. -/
def taggedSample (tag : Str) : MetricSample :=
  ⟨"http_reqs".toList, .counter, .ofMag false 0, .counter 3 (.ofMag false 0),
    ⟨[("url".toList, tag)], List.nodup_singleton _⟩⟩

/-- The tags in the order of the map. -/
def entriesOrder : HashOrder Str Str := ⟨KeyMap.entries, fun _ => .refl _⟩

theorem isFinite_counter {x : Double} (h : x.IsFinite) (count : ℕ) :
    (MetricValue.counter count x).IsFinite := by
  rw [MetricValue.IsFinite, fieldsOf, List.forall_mem_cons, List.forall_mem_singleton]
  exact ⟨True.intro, h⟩

theorem isFinite_taggedSample (tag : Str) : (taggedSample tag).value.IsFinite :=
  isFinite_counter ((Double.finite_ofMag_iff false).mpr (by norm_num [infMag])) 3

theorem recordText_readsAs_escaped :
    (∃ tags, tags.Perm (taggedSample "/a b,c=d\\".toList).tags.entries ∧
        ReadsAs (recordText entriesOrder 5 (taggedSample "/a b,c=d\\".toList))
          ⟨"http_reqs".toList, tags, fieldsOf (taggedSample "/a b,c=d\\".toList).value, 5⟩) ↔
      '\n' ∉ "http_reqs".toList ∧
        ∀ tag ∈ (taggedSample "/a b,c=d\\".toList).tags.entries, '\n' ∉ tag.1 ∧ '\n' ∉ tag.2 :=
  (recordText_readsAs_iff entriesOrder 5 (taggedSample "/a b,c=d\\".toList) [] [] []).1
    (isFinite_taggedSample _)

/-- A tag of two lines makes a record of two lines. -/
theorem not_readsAs_lineFeed :
    ¬∀ (order : HashOrder Str Str) (timestampNs : ℕ) (sample : MetricSample),
    sample.value.IsFinite →
      ∃ tags, tags.Perm sample.tags.entries ∧ ReadsAs (recordText order timestampNs sample)
        ⟨sample.metric, tags, fieldsOf sample.value, timestampNs⟩ := by
  intro h
  obtain ⟨tags, -, hline, -⟩ :=
    h entriesOrder 5 (taggedSample "a\nb".toList) (isFinite_taggedSample _)
  rw [recordText_eq] at hline
  have hnames :=
    @lineFeed_not_mem_lineText_iff (recordOf entriesOrder 5 (taggedSample "a\nb".toList))
    (isFinite_taggedSample "a\nb".toList)
  have htag := (hnames.mp hline).2.1 ("url".toList, "a\nb".toList) List.mem_cons_self
  exact htag.2 (by decide)

end K6Rs
