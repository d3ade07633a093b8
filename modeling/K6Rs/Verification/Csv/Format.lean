import K6Rs.Model.Csv

/-! # Tables as CSV text

The text of a table, and what the parser makes of its lines. -/

namespace K6Rs

open JsString

/-- A table of fields, the headers of its columns distinct. -/
structure CsvTable where
  headers : List JsString
  records : List (List JsString)
  headers_ne_nil : headers ≠ []
  headers_nodup : headers.Nodup
  widths : ∀ record ∈ records, record.length = headers.length

/-- How a table is written: a delimiter, the fields that stand in quotes, and whether a line break
ends the text. -/
structure CsvFormat where
  delimiter : UInt16
  quotes : JsString → Bool
  finalBreak : Bool
  delimiter_ne_quote : delimiter ≠ quote
  delimiter_ne_carriageReturn : delimiter ≠ carriageReturn
  delimiter_ne_lineFeed : delimiter ≠ lineFeed
  /-- A field that has one of the special code units stands in quotes. -/
  quotes_special : ∀ field u, u ∈ field →
    u = delimiter ∨ u = quote ∨ u = carriageReturn ∨ u = lineFeed → quotes field = true

/-- Lines with a break after each; the last may be without. -/
def joinLines (finalBreak : Bool) : List JsString → JsString
  | [] => []
  | [line] => line ++ if finalBreak then [carriageReturn, lineFeed] else []
  | line :: next :: lines =>
      line ++ [carriageReturn, lineFeed] ++ joinLines finalBreak (next :: lines)

/-- A field with its quotes doubled. -/
def escapeQuotes (field : JsString) : JsString :=
  field.flatMap fun u => if u = quote then [quote, quote] else [u]

namespace CsvFormat

variable (format : CsvFormat)

def fieldText (field : JsString) : JsString :=
  if format.quotes field then quote :: (escapeQuotes field ++ [quote]) else field

def lineText : List JsString → JsString
  | [] => []
  | [field] => format.fieldText field
  | field :: next :: fields =>
      format.fieldText field ++ format.delimiter :: lineText (next :: fields)

def encode (table : CsvTable) : JsString :=
  joinLines format.finalBreak ((table.headers :: table.records).map format.lineText)

end CsvFormat

/-! ## Lines -/

section Lines

variable {d : UInt16} {headers : List JsString} {tail : JsString}

theorem csvRow_append (line : JsString) (htail : ∀ u ∈ tail, isSpace u = true) :
    csvRow d headers (line ++ tail) = csvRow d headers line := by
  rw [csvRow, csvRow, trim, Trim.trim_append_of_trimmed_off line tail htail]
  rfl

/-- The lines of a text whose lines have no line feed, and the rows after the first. -/
theorem splitOn_joinLines (finalBreak : Bool) {first : JsString} {lines : List JsString}
    (hfirst : lineFeed ∉ first) (hlines : ∀ line ∈ lines, lineFeed ∉ line) :
    ∃ tail rest, (joinLines finalBreak (first :: lines)).splitOn lineFeed =
    (first ++ tail) :: rest ∧
      (tail = [] ∨ tail = [carriageReturn]) ∧
      ∀ d headers, rest.filterMap (csvRow d headers) = lines.filterMap (csvRow d headers) := by
  have hreturn : lineFeed ∉ first ++ [carriageReturn] := by
    rw [List.mem_append, not_or]
    exact ⟨hfirst, by decide⟩
  have hblank (d : UInt16) (headers : List JsString) : csvRow d headers [] = none := rfl
  induction lines generalizing first with
  | nil =>
      cases finalBreak with
      | false =>
          refine ⟨[], [], ?_, .inl rfl, fun d headers => rfl⟩
          rw [joinLines]
          exact List.splitOn_eq_singleton (by simpa using hfirst)
      | true =>
          refine ⟨[carriageReturn], [[]], ?_, .inr rfl, fun d headers => ?_⟩
          · have hsplit := List.splitOn_append_cons_self_of_not_mem hreturn []
            rw [List.append_assoc] at hsplit
            exact hsplit
          · rw [List.filterMap_cons_none (hblank d headers)]
  | cons line lines ih =>
      rw [List.forall_mem_cons] at hlines
      have hlineReturn : lineFeed ∉ line ++ [carriageReturn] := by
        rw [List.mem_append, not_or]
        exact ⟨hlines.1, by decide⟩
      obtain ⟨tail, rest, hsplit, htail, hrows⟩ := ih hlines.1 hlines.2 hlineReturn
      refine ⟨[carriageReturn], (line ++ tail) :: rest, ?_, .inr rfl, fun d headers => ?_⟩
      · have hjoin : joinLines finalBreak (first :: line :: lines) =
            (first ++ [carriageReturn]) ++ lineFeed :: joinLines finalBreak (line :: lines) := by
          simp [joinLines]
        rw [hjoin, List.splitOn_append_cons_self_of_not_mem hreturn, hsplit]
      · have hspace : ∀ u ∈ tail, isSpace u = true := by
          rcases htail with rfl | rfl
          · simp
          · exact List.all_iff_forall_prop.mp (by decide)
        rw [List.filterMap_cons, List.filterMap_cons, csvRow_append line hspace, hrows]

/-- A row for every line that has one. -/
theorem forall₂_filterMap_iff {α β : Type*} {R : α → β → Prop} {f : α → Option β} (l : List α) :
    List.Forall₂ R l (l.filterMap f) ↔ ∀ a ∈ l, ∃ b, f a = some b ∧ R a b := by
  induction l with
  | nil => simp
  | cons a l ih =>
      rw [List.forall_mem_cons, ← ih]
      cases ha : f a with
      | none =>
          rw [List.filterMap_cons_none ha]
          constructor
          · intro h
            have hlen := h.length_eq
            have hle := List.length_filterMap_le f l
            rw [List.length_cons] at hlen
            omega
          · rintro ⟨⟨b, hb, -⟩, -⟩
            nomatch hb
      | some b =>
          rw [List.filterMap_cons_some ha, List.forall₂_cons]
          simp

end Lines

/-! ## Fields -/

section Fields

variable {d u : UInt16} {current field rest : JsString}

theorem parseLineFrom_true_cons (hu : u ≠ quote) :
    parseLineFrom d true current (u :: rest) = parseLineFrom d true (current ++ [u]) rest := by
  cases rest with
  | nil => simp [parseLineFrom, hu]
  | cons next line => rw [parseLineFrom, if_neg hu]

/-- The closing quote is the one that no quote follows. -/
theorem parseLineFrom_true_quote (hrest : rest.head? ≠ some quote) :
    parseLineFrom d true current (quote :: rest) = parseLineFrom d false current rest := by
  cases rest with
  | nil => simp [parseLineFrom]
  | cons next line => rw [parseLineFrom, if_pos rfl, if_neg (fun h => hrest (by rw [h]; rfl))]

theorem parseLineFrom_escapeQuotes (hrest : rest.head? ≠ some quote) :
    parseLineFrom d true current (escapeQuotes field ++ quote :: rest) =
      parseLineFrom d false (current ++ field) rest := by
  induction field generalizing current with
  | nil => simpa [escapeQuotes] using parseLineFrom_true_quote hrest
  | cons u field ih =>
      have hfield : escapeQuotes (u :: field) =
          (if u = quote then [quote, quote] else [u]) ++ escapeQuotes field :=
        rfl
      rw [hfield]
      by_cases hu : u = quote
      · subst hu
        rw [if_pos rfl, List.cons_append, List.cons_append, List.cons_append, List.nil_append,
          List.cons_append, parseLineFrom, if_pos rfl, if_pos rfl, ih]
        simp
      · rw [if_neg hu, List.cons_append, List.nil_append, List.cons_append,
          parseLineFrom_true_cons hu, ih]
        simp

theorem parseLineFrom_plain (hfield : ∀ u ∈ field, u ≠ quote ∧ u ≠ d) :
    parseLineFrom d false current (field ++ rest) =
    parseLineFrom d false (current ++ field) rest := by
  induction field generalizing current with
  | nil => simp
  | cons u field ih =>
      rw [List.forall_mem_cons] at hfield
      rw [List.cons_append, parseLineFrom, if_neg hfield.1.1, if_neg hfield.1.2, ih hfield.2]
      simp

variable {format : CsvFormat} {tail : JsString}

theorem parseLineFrom_fieldText (hrest : rest.head? ≠ some quote) :
    parseLineFrom format.delimiter false current (format.fieldText field ++ rest) =
      parseLineFrom format.delimiter false (current ++ field) rest := by
  rw [CsvFormat.fieldText]
  split
  · rw [List.cons_append, List.append_assoc, List.cons_append, List.nil_append, parseLineFrom,
      if_pos rfl, parseLineFrom_escapeQuotes hrest]
  · rename_i hplain
    apply parseLineFrom_plain
    intro u hu
    exact ⟨fun h => hplain (format.quotes_special field u hu (.inr (.inl h))),
      fun h => hplain (format.quotes_special field u hu (.inl h))⟩

/-- The fields of a line, with white space behind it. -/
theorem parseLine_lineText {fields : List JsString} (hne : fields ≠ [])
    (htail : ∀ u ∈ tail, isSpace u = true ∧ u ≠ format.delimiter) :
    parseLine format.delimiter (format.lineText fields ++ tail) = fields.map trim := by
  have hplain : ∀ u ∈ tail, u ≠ quote ∧ u ≠ format.delimiter := by
    intro u hu
    refine ⟨?_, (htail u hu).2⟩
    rintro rfl
    exact absurd (htail quote hu).1 (by decide)
  have htailHead : tail.head? ≠ some quote := by
    intro h
    exact (hplain quote (List.mem_of_head? h)).1 rfl
  rw [parseLine]
  induction fields with
  | nil => exact absurd rfl hne
  | cons field fields ih =>
      cases fields with
      | nil =>
          have hend := @parseLineFrom_plain format.delimiter field tail [] hplain
          rw [List.append_nil] at hend
          rw [CsvFormat.lineText, parseLineFrom_fieldText htailHead, List.nil_append, hend,
            parseLineFrom, trim, Trim.trim_append_of_trimmed_off field tail fun u hu =>
            (htail u hu).1]
          rfl
      | cons next fields =>
          have hhead : (format.delimiter :: (format.lineText (next :: fields) ++ tail)).head? ≠
              some quote := by
            rw [List.head?_cons]
            exact fun h => format.delimiter_ne_quote (Option.some.inj h)
          rw [CsvFormat.lineText, List.append_assoc, List.cons_append,
            parseLineFrom_fieldText hhead, List.nil_append, parseLineFrom,
            if_neg format.delimiter_ne_quote, if_pos rfl, ih (List.cons_ne_nil _ _)]
          rfl

end Fields

end K6Rs
