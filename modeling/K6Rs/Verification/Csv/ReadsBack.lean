import K6Rs.Verification.Csv.Format

/-! # Tables read back

Lines are split and trimmed before quotes are read, and fields are trimmed after. -/

namespace K6Rs

open JsString

/-! ## What the parser never gives -/

/-- A text that the parser can give. -/
structure KeptText (s : JsString) : Prop where
  trimmed : trim s = s
  oneLine : lineFeed ∉ s

theorem keptText_nil : KeptText [] := ⟨rfl, by simp⟩

theorem keptText_trim {s : JsString} (h : lineFeed ∉ s) : KeptText (trim s) :=
  ⟨Trim.trim_trim s, fun hmem => h (Trim.mem_of_mem_trim hmem)⟩

theorem keptText_of_mem_parseLineFrom {d : UInt16} {inQuotes : Bool} {current line value : JsString}
    (hcurrent : lineFeed ∉ current) (hline : lineFeed ∉ line)
    (h : value ∈ parseLineFrom d inQuotes current line) : KeptText value := by
  have happend {current : JsString} {ch : UInt16} (hcurrent : lineFeed ∉ current)
      (hch : lineFeed ≠ ch) :
      lineFeed ∉ current ++ [ch] := by
    simp [hcurrent, hch]
  fun_induction parseLineFrom d inQuotes current line with
  | case1 inQuotes current =>
      rw [List.mem_singleton] at h
      rw [h]
      exact keptText_trim hcurrent
  | case2 current ih => exact ih hcurrent List.not_mem_nil h
  | case3 current ch hch ih => exact ih (happend hcurrent (by simpa using hline)) List.not_mem_nil h
  | case4 current line ih =>
      simp only [List.mem_cons, not_or] at hline
      exact ih (happend hcurrent hline.1) hline.2.2 h
  | case5 current next line hnext ih =>
      rw [List.mem_cons, not_or] at hline
      exact ih hcurrent hline.2 h
  | case6 current ch next line hch ih =>
      rw [List.mem_cons, not_or] at hline
      exact ih (happend hcurrent hline.1) hline.2 h
  | case7 current line ih =>
      rw [List.mem_cons, not_or] at hline
      exact ih hcurrent hline.2 h
  | case8 current line hd ih =>
      rw [List.mem_cons, not_or] at hline
      rw [List.mem_cons] at h
      rcases h with rfl | h
      · exact keptText_trim hcurrent
      · exact ih List.not_mem_nil hline.2 h
  | case9 current ch line hch hd ih =>
      rw [List.mem_cons, not_or] at hline
      exact ih (happend hcurrent hline.1) hline.2 h

theorem keptText_of_mem_parseLine {d : UInt16} {line value : JsString} (hline : lineFeed ∉ line)
    (h : value ∈ parseLine d line) : KeptText value :=
  keptText_of_mem_parseLineFrom List.not_mem_nil hline h

/-- The keys and the values of an object that the parser can give. -/
def KeptObject (obj : CsvObject) : Prop :=
  ∀ key value, obj.find? key = some value → KeptText key ∧ key ≠ protoKey ∧ KeptText value

theorem keptObject_foldl {pairs : List (JsString × JsString)} {obj : CsvObject}
    (hobj : KeptObject obj)
    (hpairs : ∀ pair ∈ pairs, KeptText pair.1 ∧ KeptText pair.2) :
    KeptObject (pairs.foldl setProperty obj) := by
  induction pairs generalizing obj with
  | nil => exact hobj
  | cons pair pairs ih =>
      rw [List.forall_mem_cons] at hpairs
      refine ih ?_ hpairs.2
      intro key value hfind
      unfold setProperty at hfind
      split at hfind
      · exact hobj key value hfind
      · rename_i hproto
        by_cases hkey : key = pair.1
        · subst hkey
          rw [KeyMap.find?_upsert_self] at hfind
          cases hfind
          exact ⟨hpairs.1.1, hproto, hpairs.1.2⟩
        · rw [KeyMap.find?_upsert_of_ne _ _ hkey] at hfind
          exact hobj key value hfind

theorem keptObject_rowObject {headers values : List JsString}
    (hheaders : ∀ header ∈ headers, KeptText header)
    (hvalues : ∀ value ∈ values, KeptText value) : KeptObject (rowObject headers values) := by
  refine keptObject_foldl (fun _ _ h => nomatch h) ?_
  intro pair hpair
  obtain ⟨⟨header, j⟩, hmem, rfl⟩ := List.mem_map.mp hpair
  refine ⟨hheaders header (List.fst_mem_of_mem_zipIdx hmem), ?_⟩
  change KeptText (values.getD j [])
  rw [List.getD_eq_getElem?_getD]
  cases hj : values[j]? with
  | none => exact keptText_nil
  | some value => exact hvalues value (List.mem_of_getElem? hj)

theorem keptObject_of_mem_csvParse {d : UInt16} {text : JsString} {obj : CsvObject}
    (h : obj ∈ csvParse d text) :
    KeptObject obj := by
  unfold csvParse at h
  split at h
  · nomatch h
  · rename_i first lines hsplit
    have hlines : ∀ line ∈ first :: lines, lineFeed ∉ line := by
      intro line hline
      rw [← hsplit] at hline
      exact JsString.not_mem_of_mem_splitOn hline
    obtain ⟨line, hline, hrow⟩ := List.mem_filterMap.mp h
    simp only [csvRow, Option.ite_none_left_eq_some] at hrow
    obtain ⟨-, hrow⟩ := hrow
    cases hrow
    apply keptObject_rowObject
    · intro header hheader
      exact keptText_of_mem_parseLine (hlines first List.mem_cons_self) hheader
    · intro value hvalue
      have htrim : lineFeed ∉ trim line := fun hmem =>
        hlines line (List.mem_cons_of_mem first hline) (Trim.mem_of_mem_trim hmem)
      exact keptText_of_mem_parseLine htrim hvalue

/-! ## Rows -/

theorem zipIdx_getD (headers fields : List JsString) (h : fields.length = headers.length) :
    headers.zipIdx.map (fun (header, j) => (header, fields.getD j [])) = headers.zip fields := by
  apply List.ext_getElem
  · simp [h]
  · intro i hi hi'
    simp at hi hi'
    simp [hi'.2]

/-- Distinct headers are mapped to their fields; only `__proto__` is not. -/
theorem find?_rowObject {headers fields : List JsString} (hnodup : headers.Nodup)
    (hproto : protoKey ∉ headers) (h : fields.length = headers.length) (key : JsString) :
    (rowObject headers fields).find? key = (headers.zip fields).lookup key := by
  have hset : ∀ (pairs : List (JsString × JsString)) (obj : CsvObject),
      (∀ pair ∈ pairs, pair.1 ≠ protoKey) →
      pairs.foldl setProperty obj = obj.extend pairs := by
    intro pairs
    induction pairs with
    | nil => exact fun _ _ => rfl
    | cons pair pairs ih =>
        intro obj hpairs
        rw [List.forall_mem_cons] at hpairs
        rw [List.foldl_cons, setProperty, if_neg hpairs.1, ih _ hpairs.2]
        rfl
  have hpairs : ∀ pair ∈ headers.zip fields, pair.1 ≠ protoKey := by
    intro pair hpair hkey
    exact hproto (hkey ▸ (List.of_mem_zip hpair).1)
  have hkeys : ((headers.zip fields).map Prod.fst).Nodup := by
    rwa [List.map_fst_zip (by omega)]
  rw [rowObject, zipIdx_getD headers fields h, hset _ _ hpairs, KeyMap.find?_extend]
  have hreverse :=
    KeyMap.lookup_eq_of_perm (m := ⟨headers.zip fields, hkeys⟩) (List.reverse_perm _) key
  have hself := KeyMap.lookup_eq_of_perm (m := ⟨headers.zip fields, hkeys⟩) (List.Perm.refl _) key
  rw [hreverse, ← hself]
  exact Option.or_none

/-- Values that are missing at the end are empty. -/
theorem rowObject_append_replicate (headers values : List JsString) (k : ℕ) :
    rowObject headers (values ++ List.replicate k []) = rowObject headers values := by
  have hgetD (j : ℕ) : (values ++ List.replicate k []).getD j [] = values.getD j [] := by
    rw [List.getD_eq_getElem?_getD, List.getD_eq_getElem?_getD]
    rcases Nat.lt_or_ge j values.length with hj | hj
    · rw [List.getElem?_append_left hj]
    · rw [List.getElem?_append_right hj, List.getElem?_eq_none hj, List.getElem?_replicate]
      split <;> rfl
  simp only [rowObject, hgetD]

/-! ## Trimmed lines -/

section Trimmed

variable {format : CsvFormat} {first : JsString} {rest fields : List JsString} {tail : JsString}

theorem isSpace_quote : isSpace quote = false := by decide

theorem head_fieldText {u : UInt16} {field text : JsString} (htrim : trim field = field)
    (h : format.fieldText field = u :: text) : isSpace u = false := by
  rw [CsvFormat.fieldText] at h
  split at h
  · rw [← (List.cons.inj h).1]
    exact isSpace_quote
  · subst h
    exact Trim.head_of_trim_eq_self htrim

theorem last_fieldText {u : UInt16} {field text : JsString} (htrim : trim field = field)
    (h : format.fieldText field = text ++ [u]) : isSpace u = false := by
  rw [CsvFormat.fieldText] at h
  split at h
  · rw [← List.cons_append] at h
    rw [← List.singleton_inj.mp (List.append_inj_right' h rfl)]
    exact isSpace_quote
  · subst h
    exact Trim.last_of_trim_eq_self htrim

theorem fieldText_eq_nil {field : JsString} (h : format.fieldText field = []) : field = [] := by
  rw [CsvFormat.fieldText] at h
  split at h
  · cases h
  · exact h

theorem lineText_append_singleton (last : JsString) :
    format.lineText (first :: (rest ++ [last])) =
      format.lineText (first :: rest) ++ format.delimiter :: format.fieldText last := by
  induction rest generalizing first with
  | nil => rfl
  | cons next rest ih =>
      rw [List.cons_append, CsvFormat.lineText, ih, CsvFormat.lineText]
      simp

/-- The first code unit of a line is no space, unless the line begins with a delimiter that is
one. -/
theorem head_lineText {u : UInt16} {text : JsString} (htrim : trim first = first)
    (hfirst : format.fieldText first ≠ [] ∨ isSpace format.delimiter = false)
    (h : format.lineText (first :: rest) = u :: text) : isSpace u = false := by
  cases htext : format.fieldText first with
  | cons v field =>
      have hv := head_fieldText htrim htext
      cases rest with
      | nil =>
          rw [CsvFormat.lineText, htext] at h
          rwa [← (List.cons.inj h).1]
      | cons next rest =>
          rw [CsvFormat.lineText, htext] at h
          rwa [← (List.cons.inj h).1]
  | nil =>
      have hdelimiter := hfirst.resolve_left (fun hne => hne htext)
      cases rest with
      | nil =>
          rw [CsvFormat.lineText, htext] at h
          cases h
      | cons next rest =>
          rw [CsvFormat.lineText, htext] at h
          rwa [← (List.cons.inj h).1]

theorem lineText_ne_nil (h : format.fieldText first ≠ [] ∨ rest ≠ []) :
    format.lineText (first :: rest) ≠ [] := by
  cases rest with
  | nil => exact h.resolve_right (fun hne => hne rfl)
  | cons next rest => simp [CsvFormat.lineText]

/-- A line whose last code unit is no space is trimmed. -/
theorem trim_lineText (htrim : trim first = first)
    (hfirst : format.fieldText first ≠ [] ∨ isSpace format.delimiter = false)
    (hlast : ∀ text u, format.lineText (first :: rest) = text ++ [u] → isSpace u = false) :
    trim (format.lineText (first :: rest)) = format.lineText (first :: rest) := by
  apply Trim.trim_eq_self
  · intro u hu
    obtain ⟨text, htext⟩ := List.head?_eq_some_iff.mp hu
    exact head_lineText htrim hfirst htext
  · intro u hu
    obtain ⟨text, htext⟩ := List.getLast?_eq_some_iff.mp hu
    exact hlast text u htext

/-- Trimming a line drops empty fields at its end, and nothing else when its first field is
written. -/
theorem exists_trim_lineText (hfields : ∀ field ∈ first :: rest, trim field = field)
    (hfirst : format.fieldText first ≠ [] ∨ rest ≠ [] ∧ isSpace format.delimiter = false)
    (htail : ∀ u ∈ tail, isSpace u = true) :
    ∃ kept k, rest = kept ++ List.replicate k [] ∧
      trim (format.lineText (first :: rest) ++ tail) = format.lineText (first :: kept) ∧
      format.lineText (first :: kept) ≠ [] := by
  have htrim := hfields first List.mem_cons_self
  induction rest using List.reverseRecOn generalizing tail with
  | nil =>
      have hwritten := hfirst.resolve_right (fun h => h.1 rfl)
      refine ⟨[], 0, rfl, ?_, hwritten⟩
      rw [trim, Trim.trim_append_of_trimmed_off _ _ htail]
      exact trim_lineText htrim (.inl hwritten) fun text u htext => last_fieldText htrim htext
  | append_singleton init last ih =>
      have hhead : format.fieldText first ≠ [] ∨ isSpace format.delimiter = false :=
        hfirst.imp_right And.right
      have hwhole (hlast : ∀ text u, format.lineText (first :: (init ++ [last])) = text ++ [u] →
          isSpace u = false) :
          ∃ kept k, init ++ [last] = kept ++ List.replicate k [] ∧
            trim (format.lineText (first :: (init ++ [last])) ++ tail) =
              format.lineText (first :: kept) ∧
            format.lineText (first :: kept) ≠ [] := by
        refine ⟨init ++ [last], 0, by simp, ?_, lineText_ne_nil (.inr (by simp))⟩
        rw [trim, Trim.trim_append_of_trimmed_off _ _ htail]
        exact trim_lineText htrim hhead hlast
      have hlastTrim := hfields last (by simp)
      cases htext : format.fieldText last using List.reverseRecOn with
      | append_singleton front v =>
          apply hwhole
          intro text u htext'
          rw [lineText_append_singleton, htext, ← List.cons_append, ← List.append_assoc] at htext'
          rw [← List.singleton_inj.mp (List.append_inj_right' htext' rfl)]
          exact last_fieldText hlastTrim htext
      | nil =>
          cases hdelimiter : isSpace format.delimiter with
          | false =>
              apply hwhole
              intro text u htext'
              rw [lineText_append_singleton, htext] at htext'
              rwa [← List.singleton_inj.mp (List.append_inj_right' htext' rfl)]
          | true =>
              -- the last delimiter goes with the space behind the line
              have hwritten := hhead.resolve_right (by simp [hdelimiter])
              have hspaces : ∀ u ∈ format.delimiter :: tail, isSpace u = true := by
                rw [List.forall_mem_cons]
                exact ⟨hdelimiter, htail⟩
              have hinitFields : ∀ field ∈ first :: init, trim field = field := by
                intro field hfield
                exact hfields field (List.cons_subset_cons first
                  (List.subset_append_left init [last]) hfield)
              obtain ⟨kept, k, hinit, hline, hne⟩ := ih hinitFields (.inl hwritten) hspaces
              refine ⟨kept, k + 1, ?_, ?_, hne⟩
              · rw [hinit, fieldText_eq_nil htext, List.append_assoc, List.replicate_succ']
              · rw [lineText_append_singleton, htext, List.append_assoc]
                exact hline

/-- The values that are read from a line whose first field is written. -/
theorem exists_parseLine_trim (hfields : ∀ field ∈ first :: rest, trim field = field)
    (hfirst : format.fieldText first ≠ [] ∨ rest ≠ [] ∧ isSpace format.delimiter = false) :
    ∃ kept k, rest = kept ++ List.replicate k [] ∧ trim (format.lineText (first :: rest)) ≠ [] ∧
      parseLine format.delimiter (trim (format.lineText (first :: rest))) = first :: kept := by
  have hempty : ∀ u ∈ ([] : JsString), isSpace u = true := List.forall_mem_nil _
  obtain ⟨kept, k, hrest, hline, hne⟩ := exists_trim_lineText hfields hfirst hempty
  rw [List.append_nil] at hline
  refine ⟨kept, k, hrest, ?_, ?_⟩
  · rwa [hline]
  · have hparse :=
      @parseLine_lineText format [] (first :: kept) (List.cons_ne_nil _ _) (List.forall_mem_nil _)
    rw [List.append_nil] at hparse
    rw [hline, hparse]
    have hkept : ∀ field ∈ first :: kept, trim field = field := by
      intro field hfield
      refine hfields field (List.cons_subset_cons first ?_ hfield)
      rw [hrest]
      exact List.subset_append_left kept _
    exact (List.map_congr_left hkept).trans (List.map_id _)

/-- An empty field that is not written is lost from the start of a line when the delimiter is a
space. -/
theorem trim_lineText_cons_nil (hnil : format.fieldText [] = [])
    (hdelimiter : isSpace format.delimiter = true)
    (next : JsString) (fields : List JsString) :
    trim (format.lineText ([] :: next :: fields)) = trim (format.lineText (next :: fields)) := by
  rw [CsvFormat.lineText, hnil, List.nil_append, ← List.singleton_append]
  exact Trim.trim_trimmed_off_append _ _ (by simpa using hdelimiter)

/-- The first value of a line that is not blank and whose first field is lost. -/
theorem exists_parseLine_of_lost (hnil : format.fieldText [] = [])
    (hdelimiter : isSpace format.delimiter = true)
    (hfields : ∀ field ∈ fields, trim field = field) (hline : trim (format.lineText fields) ≠ []) :
    ∃ value values, value ≠ [] ∧ values.length < fields.length ∧
      parseLine format.delimiter (trim (format.lineText fields)) = value :: values := by
  induction fields with
  | nil => exact absurd rfl hline
  | cons field fields ih =>
      by_cases hfield : field = []
      · subst hfield
        cases fields with
        | nil =>
            rw [CsvFormat.lineText, hnil] at hline
            exact absurd rfl hline
        | cons next fields =>
            rw [trim_lineText_cons_nil hnil hdelimiter] at hline ⊢
            obtain ⟨value, values, hvalue, hlength, hparse⟩ :=
              ih (fun field hmem => hfields field (List.mem_cons_of_mem [] hmem)) hline
            exact ⟨value, values, hvalue, hlength.trans (Nat.lt_succ_self _), hparse⟩
      · have hwritten : format.fieldText field ≠ [] := fun h => hfield (fieldText_eq_nil h)
        obtain ⟨kept, k, hrest, -, hparse⟩ := exists_parseLine_trim hfields (.inl hwritten)
        refine ⟨field, kept, hfield, ?_, hparse⟩
        rw [hrest, List.length_cons, List.length_append]
        omega

end Trimmed

/-! ## Tables -/

/-- The parser gives one object for each record, its headers mapped to its fields. -/
def CsvFormat.ReadsBack (format : CsvFormat) (table : CsvTable) : Prop :=
  List.Forall₂ (fun record obj => ∀ key, obj.find? key = (table.headers.zip record).lookup key)
    table.records
    (csvParse format.delimiter (format.encode table))

/-- The fields of a table survive the splitting and the trimming. -/
structure CsvFormat.Survives (format : CsvFormat) (table : CsvTable) : Prop where
  headers : ∀ header ∈ table.headers, lineFeed ∉ header
  keys : table.records ≠ [] → ∀ header ∈ table.headers, trim header = header ∧ header ≠ protoKey
  fields : ∀ record ∈ table.records, ∀ field ∈ record, lineFeed ∉ field ∧ trim field = field
  firsts : ∀ record ∈ table.records, ∀ field ∈ record.head?,
    field ≠ [] ∨ format.quotes field = true ∨ 1 < record.length ∧ isSpace format.delimiter = false

section Tables

variable {format : CsvFormat} {table : CsvTable}

theorem lineFeed_mem_lineText {fields : List JsString} :
    lineFeed ∈ format.lineText fields ↔ ∃ field ∈ fields, lineFeed ∈ field := by
  have hfield (field : JsString) : lineFeed ∈ format.fieldText field ↔ lineFeed ∈ field := by
    have hquote : lineFeed ≠ quote := by decide
    rw [CsvFormat.fieldText]
    split
    · simp only [escapeQuotes, List.mem_cons, List.mem_append, List.mem_flatMap, hquote,
        List.not_mem_nil, or_false, false_or]
      constructor
      · rintro ⟨u, hu, hmem⟩
        split at hmem
        · simp [hquote] at hmem
        · rw [List.mem_singleton] at hmem
          rwa [hmem]
      · intro hmem
        exact ⟨lineFeed, hmem, by simp [hquote]⟩
    · rfl
  induction fields with
  | nil => simp [CsvFormat.lineText]
  | cons first rest ih =>
      cases rest with
      | nil => simp [CsvFormat.lineText, hfield]
      | cons next rest =>
          have hdelimiter := format.delimiter_ne_lineFeed.symm
          have hline : lineFeed ∈ format.lineText (first :: next :: rest) ↔
              lineFeed ∈ first ∨ lineFeed ∈ format.lineText (next :: rest) := by
            simp [CsvFormat.lineText, hfield, hdelimiter]
          rw [hline, List.exists_mem_cons_iff]
          exact or_congr Iff.rfl ih

/-- Without line feeds in its fields, the lines of a table are read one by one. -/
theorem csvParse_encode (hheaders : ∀ header ∈ table.headers, lineFeed ∉ header)
    (hfields : ∀ record ∈ table.records, ∀ field ∈ record, lineFeed ∉ field) :
    csvParse format.delimiter (format.encode table) =
      table.records.filterMap fun record =>
        csvRow format.delimiter (table.headers.map trim) (format.lineText record) := by
  have hfirst : lineFeed ∉ format.lineText table.headers := by
    rw [lineFeed_mem_lineText]
    rintro ⟨header, hmem, hlineFeed⟩
    exact hheaders header hmem hlineFeed
  have hlines : ∀ line ∈ table.records.map format.lineText, lineFeed ∉ line := by
    rw [List.forall_mem_map]
    intro record hrecord
    rw [lineFeed_mem_lineText]
    rintro ⟨field, hmem, hlineFeed⟩
    exact hfields record hrecord field hmem hlineFeed
  obtain ⟨tail, rest, hsplit, htail, hrows⟩ := splitOn_joinLines format.finalBreak hfirst hlines
  have hspace : ∀ u ∈ tail, isSpace u = true ∧ u ≠ format.delimiter := by
    rcases htail with rfl | rfl
    · simp
    · rw [List.forall_mem_singleton]
      exact ⟨by decide, format.delimiter_ne_carriageReturn.symm⟩
  have hencode : (format.encode table).splitOn lineFeed =
      (format.lineText table.headers ++ tail) :: rest := hsplit
  rw [csvParse, hencode]
  simp only [parseLine_lineText table.headers_ne_nil hspace, hrows, List.filterMap_map]
  rfl

theorem exists_lineText_eq {field : JsString} {fields : List JsString} (h : field ∈ fields) :
    ∃ front back, format.lineText fields = front ++ format.fieldText field ++ back := by
  induction fields with
  | nil => nomatch h
  | cons first rest ih =>
      cases rest with
      | nil =>
          rw [List.mem_singleton] at h
          exact ⟨[], [], by simp [CsvFormat.lineText, h]⟩
      | cons next rest =>
          rw [List.mem_cons] at h
          rcases h with rfl | h
          · exact ⟨[], _, rfl⟩
          · obtain ⟨front, back, hrest⟩ := ih h
            refine ⟨format.fieldText first ++ format.delimiter :: front, back, ?_⟩
            rw [CsvFormat.lineText, hrest]
            simp

/-- A line feed in a header has the closing quote of the header behind it. -/
theorem exists_encode_eq {header : JsString} (hheader : header ∈ table.headers)
    (hlineFeed : lineFeed ∈ header) :
    ∃ front back, format.encode table = front ++ lineFeed :: back ∧ quote ∈ back := by
  have hquotes := format.quotes_special header lineFeed hlineFeed (.inr (.inr (.inr rfl)))
  have hescaped : lineFeed ∈ escapeQuotes header :=
    List.mem_flatMap.mpr ⟨lineFeed, hlineFeed, by simp [show lineFeed ≠ quote by decide]⟩
  obtain ⟨a, b, hab⟩ := List.append_of_mem hescaped
  obtain ⟨front, back, hline⟩ := @exists_lineText_eq format _ _ hheader
  obtain ⟨lines, hencode⟩ : ∃ lines, format.encode table =
    format.lineText table.headers ++ lines := by
    rw [CsvFormat.encode, List.map_cons]
    cases table.records.map format.lineText with
    | nil => exact ⟨_, rfl⟩
    | cons next lines => exact ⟨_, List.append_assoc _ _ _⟩
  refine ⟨front ++ quote :: a, b ++ [quote] ++ back ++ lines, ?_, by simp⟩
  rw [hencode, hline, CsvFormat.fieldText, if_pos hquotes, hab]
  simp

/-- So a line after the first is not blank. -/
theorem csvParse_ne_nil {header : JsString} (hheader : header ∈ table.headers)
    (hlineFeed : lineFeed ∈ header) :
    csvParse format.delimiter (format.encode table) ≠ [] := by
  obtain ⟨front, back, hencode, hquote⟩ := @exists_encode_eq format _ _ hheader hlineFeed
  obtain ⟨part, hpart, hmem⟩ := JsString.exists_mem_splitOn hquote (show quote ≠ lineFeed by decide)
  rw [hencode, csvParse, List.splitOn_append_cons_self]
  cases hfront : front.splitOn lineFeed with
  | nil => exact absurd hfront (List.splitOn_ne_nil _ _)
  | cons first lines =>
      have htrim : trim part ≠ [] := by
        intro hnil
        exact Bool.false_ne_true (isSpace_quote.symm.trans
          ((Trim.trim_eq_nil_iff part).mp hnil quote hmem))
      intro hnil
      have hrow := List.filterMap_eq_nil_iff.mp hnil part (List.mem_append_right lines hpart)
      rw [csvRow, if_neg htrim] at hrow
      cases hrow

/-- A field of a record that is read back is one that the parser can give, and so is every
header. -/
theorem kept_of_readsBack (h : format.ReadsBack table) {record : List JsString}
    (hrecord : record ∈ table.records) :
    (∀ header ∈ table.headers, KeptText header ∧ header ≠ protoKey) ∧ ∀ field ∈ record,
    KeptText field := by
  obtain ⟨obj, hobj, hfind⟩ : ∃ obj ∈ csvParse format.delimiter (format.encode table),
      ∀ key, obj.find? key = (table.headers.zip record).lookup key := by
    obtain ⟨i, hi, rfl⟩ := List.getElem_of_mem hrecord
    have hlength := h.length_eq
    exact ⟨_, List.getElem_mem (hlength ▸ hi), h.get hi (hlength ▸ hi)⟩
  have hkept := keptObject_of_mem_csvParse hobj
  have hwidth := table.widths record hrecord
  have hpair {header field : JsString} (hmem : (header, field) ∈ table.headers.zip record) :
      obj.find? header = some field := by
    have hkeys : ((table.headers.zip record).map Prod.fst).Nodup := by
      rw [List.map_fst_zip (by omega)]
      exact table.headers_nodup
    rw [hfind, KeyMap.lookup_eq_of_perm (m := ⟨_, hkeys⟩) (List.Perm.refl _)]
    exact (KeyMap.find?_eq_some_iff ⟨_, hkeys⟩ header field).mpr hmem
  constructor
  · intro header hheader
    obtain ⟨i, hi, rfl⟩ := List.getElem_of_mem hheader
    have hi' : i < record.length := hwidth ▸ hi
    have hzip : (table.headers[i], record[i]) ∈ table.headers.zip record := by
      rw [← List.getElem_zip (h := by simp [hi, hi'])]
      exact List.getElem_mem _
    have hboth := hkept _ _ (hpair hzip)
    exact ⟨hboth.1, hboth.2.1⟩
  · intro field hfield
    obtain ⟨i, hi, rfl⟩ := List.getElem_of_mem hfield
    have hi' : i < table.headers.length := hwidth ▸ hi
    have hzip : (table.headers[i], record[i]) ∈ table.headers.zip record := by
      rw [← List.getElem_zip (h := by simp [hi, hi'])]
      exact List.getElem_mem _
    exact (hkept _ _ (hpair hzip)).2.2

/-- The row of a record, when its fields are trimmed and its headers are not changed. -/
theorem csvRow_lineText_iff {headers record : List JsString} (hnodup : headers.Nodup)
    (hproto : protoKey ∉ headers)
    (hwidth : record.length = headers.length) (hne : headers ≠ [])
    (hfields : ∀ field ∈ record, trim field = field) :
    (∃ obj, csvRow format.delimiter headers (format.lineText record) = some obj ∧
        ∀ key, obj.find? key = (headers.zip record).lookup key) ↔
      ∀ field ∈ record.head?,
        field ≠ [] ∨ format.quotes field = true ∨ 1 < record.length ∧
        isSpace format.delimiter = false := by
  cases record with
  | nil => exact absurd (List.length_eq_zero_iff.mp hwidth.symm) hne
  | cons first rest =>
      rw [List.head?_cons]
      constructor
      · rintro ⟨obj, hrow, hfind⟩ field hfield
        cases hfield
        by_contra hlost
        simp only [not_or, not_and, ne_eq, not_not, Bool.not_eq_true] at hlost
        obtain ⟨rfl, hquotes, hdelimiter⟩ := hlost
        have hnil : format.fieldText [] = [] := by simp [CsvFormat.fieldText, hquotes]
        simp only [csvRow, Option.ite_none_left_eq_some] at hrow
        obtain ⟨hline, hrow⟩ := hrow
        cases hrow
        cases rest with
        | nil => exact hline (by rw [CsvFormat.lineText, hnil]; rfl)
        | cons next rest =>
            have hspace : isSpace format.delimiter = true := by simpa using hdelimiter (by simp)
            obtain ⟨value, values, hvalue, hlength, hparse⟩ :=
              exists_parseLine_of_lost hnil hspace hfields hline
            cases headers with
            | nil => exact hne rfl
            | cons header headers =>
                have hpad :
                    (value :: (values ++ List.replicate (headers.length -
                      values.length) [])).length =
                    (header :: headers).length := by
                  simp only [List.length_cons, List.length_append,
                    List.length_replicate] at hwidth hlength ⊢
                  omega
                have hheader := hfind header
                rw [hparse, ← rowObject_append_replicate _ _ (headers.length - values.length),
                  List.cons_append, find?_rowObject hnodup hproto hpad] at hheader
                simp at hheader
                exact hvalue hheader
      · intro hfirst
        have hwritten : format.fieldText first ≠ [] ∨ rest ≠ [] ∧
            isSpace format.delimiter = false := by
          rcases hfirst first rfl with h | h | ⟨hlength, h⟩
          · exact .inl fun hnil => h (fieldText_eq_nil hnil)
          · exact .inl (by simp [CsvFormat.fieldText, h])
          · refine .inr ⟨?_, h⟩
            rintro rfl
            exact absurd hlength (by simp)
        obtain ⟨kept, k, hrest, hline, hparse⟩ := exists_parseLine_trim hfields hwritten
        refine ⟨rowObject headers (first :: rest), ?_, find?_rowObject hnodup hproto hwidth⟩
        rw [csvRow, if_neg hline, hparse, hrest, ← List.cons_append, rowObject_append_replicate]

/-- A table is read back exactly when its fields survive. -/
theorem readsBack_iff_survives (format : CsvFormat) (table : CsvTable) :
    format.ReadsBack table ↔ format.Survives table := by
  have hrows (hheaders : ∀ header ∈ table.headers, lineFeed ∉ header)
      (hkeys : table.records ≠ [] → ∀ header ∈ table.headers,
        trim header = header ∧ header ≠ protoKey)
      (hfields : ∀ record ∈ table.records, ∀ field ∈ record,
        lineFeed ∉ field ∧ trim field = field) :
      format.ReadsBack table ↔ ∀ record ∈ table.records, ∀ field ∈ record.head?,
        field ≠ [] ∨ format.quotes field = true ∨ 1 < record.length ∧
          isSpace format.delimiter = false := by
    rw [CsvFormat.ReadsBack, csvParse_encode hheaders fun record hrecord field hfield =>
      (hfields record hrecord field hfield).1, forall₂_filterMap_iff]
    refine forall₂_congr fun record hrecord => ?_
    have hheadersKept := hkeys (List.ne_nil_of_mem hrecord)
    have htrim : table.headers.map trim = table.headers :=
      (List.map_congr_left fun header hheader => (hheadersKept header hheader).1).trans
        (List.map_id _)
    rw [htrim]
    exact csvRow_lineText_iff table.headers_nodup (fun hproto => (hheadersKept _ hproto).2 rfl)
      (table.widths record hrecord) table.headers_ne_nil fun field hfield =>
        (hfields record hrecord field hfield).2
  constructor
  · intro h
    have hheaders : ∀ header ∈ table.headers, lineFeed ∉ header := by
      intro header hheader hlineFeed
      cases hrecords : table.records with
      | nil =>
          have hlength := h.length_eq
          rw [hrecords] at hlength
          exact csvParse_ne_nil hheader hlineFeed (List.length_eq_zero_iff.mp hlength.symm)
      | cons record records =>
          have hrecord : record ∈ table.records := hrecords ▸ List.mem_cons_self
          exact ((kept_of_readsBack h hrecord).1 header hheader).1.oneLine hlineFeed
    have hkeys : table.records ≠ [] → ∀ header ∈ table.headers,
        trim header = header ∧ header ≠ protoKey := by
      intro hne header hheader
      obtain ⟨record, hrecord⟩ := List.exists_mem_of_ne_nil _ hne
      have hkept := (kept_of_readsBack h hrecord).1 header hheader
      exact ⟨hkept.1.trimmed, hkept.2⟩
    have hfields : ∀ record ∈ table.records, ∀ field ∈ record,
        lineFeed ∉ field ∧ trim field = field := by
      intro record hrecord field hfield
      have hkept := (kept_of_readsBack h hrecord).2 field hfield
      exact ⟨hkept.oneLine, hkept.trimmed⟩
    exact ⟨hheaders, hkeys, hfields, (hrows hheaders hkeys hfields).mp h⟩
  · intro h
    exact (hrows h.headers h.keys h.fields).mpr h.firsts

end Tables

/-- Commas between the fields, and quotes only where a field needs them. -/
def CsvFormat.comma : CsvFormat where
  delimiter := 44
  quotes field := field.any fun u => u = 44 || u = quote || u = carriageReturn || u = lineFeed
  finalBreak := true
  delimiter_ne_quote := by decide
  delimiter_ne_carriageReturn := by decide
  delimiter_ne_lineFeed := by decide
  quotes_special field u hu hspecial := by
    rw [List.any_eq_true]
    refine ⟨u, hu, ?_⟩
    simpa [or_assoc] using hspecial

/-- A field of two lines gives two objects. -/
theorem not_readsBack_twoLines : ¬∀ (format : CsvFormat) (table : CsvTable),
    format.ReadsBack table := by
  intro hall
  let table : CsvTable := {
    headers := [[97]]
    records := [[[120, lineFeed, 121]]]
    headers_ne_nil := by simp
    headers_nodup := by simp
    widths := by simp }
  have hlength := (hall .comma table).length_eq
  have hparse : (csvParse CsvFormat.comma.delimiter (CsvFormat.comma.encode table)).length =
      2 := by decide +kernel
  rw [hparse] at hlength
  nomatch hlength

end K6Rs
