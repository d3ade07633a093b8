import K6Rs.Library.Rfc4180
import K6Rs.Model.CsvOutput

/-! # Rows of the CSV outputs

A row is read back column by column. The tags of a sample are joined without quotes, so two tags are
read as one whose value goes on. -/

namespace K6Rs

open Rfc4180 (Encodes readRecord)

/-! ## Columns -/

theorem encodes_csvField (value : Str) : Encodes (csvField value) value := by
  rw [csvField]
  split
  · exact .quoted value
  · rename_i h
    refine .plain fun c hc hspecial => h ?_
    rw [List.any_eq_true]
    exact ⟨c, hc, by simpa [Rfc4180.special] using hspecial⟩

theorem encodes_fixed (places : ℕ) (x : Double) : Encodes (x.fixed places) (x.fixed places) := by
  have hall : ∀ c ∈ Rfc4180.special,
      ¬(FloatLit.isDigit c = true ∨ c ∈ ['.', '-', 'N', 'a', 'i', 'n', 'f']) :=
    List.all_iff_forall_prop.mp (by decide)
  exact .plain fun c hc hspecial => hall c hspecial (Double.mem_fixed hc)

theorem encodes_natText (n : ℕ) : Encodes (natText n) (natText n) := by
  have hall : ∀ c ∈ Rfc4180.special, ¬FloatLit.isDigit c = true :=
    List.all_iff_forall_prop.mp (by decide)
  exact .plain fun c hc hspecial => hall c hspecial (FloatLit.isDigit_toDigits hc)

theorem encodes_debug (t : MetricType) : Encodes t.debug t.debug := by
  cases t <;> exact .plain (List.all_iff_forall_prop.mp (by decide))

/-- A CSV row has the columns of its header. -/
theorem readRecord_csvRow (order : HashOrder Str Str) (sample : MetricSample) :
    readRecord (CsvOutput.rowText order sample) =
      some [sample.metric, sample.timestamp.fixed 3, sample.metricType.debug,
        CsvOutput.valueText sample.value, tagsColumn order sample.tags] := by
  have hread := Rfc4180.readRecord_intercalate (List.cons_ne_nil _ _)
    (.cons (encodes_csvField sample.metric) (.cons (encodes_fixed 3 sample.timestamp) (.cons
      (encodes_debug sample.metricType)
      (.cons (encodes_csvField (CsvOutput.valueText sample.value)) (.cons
        (encodes_csvField (tagsColumn order sample.tags)) .nil)))))
  simpa [CsvOutput.rowText, Escape.intercalate_cons] using hread

/-- The last column of a DuckDB row has the tags. -/
theorem readRecord_duckDbRow (order : HashOrder Str Str) (sample : MetricSample) :
    ∃ columns, readRecord (DuckDb.rowText order sample) =
      some (sample.metric :: columns ++ [tagsColumn order sample.tags]) ∧ columns.length = 10 := by
  rcases hvalue : DuckDb.valueColumns sample.value with
    ⟨⟨avg, min, med, max, p90, p95⟩, count, rate⟩
  have hread := Rfc4180.readRecord_intercalate (List.cons_ne_nil _ _)
    (.cons (encodes_csvField sample.metric) (.cons (encodes_debug sample.metricType) (.cons
      (encodes_fixed 3 sample.timestamp)
      (.cons (encodes_fixed 3 avg) (.cons (encodes_fixed 3 min) (.cons
        (encodes_fixed 3 med) (.cons (encodes_fixed 3 max)
          (.cons (encodes_fixed 3 p90) (.cons (encodes_fixed 3 p95)
          (.cons (encodes_natText count) (.cons (encodes_fixed 6 rate) (.cons
            (encodes_csvField (tagsColumn order sample.tags)) .nil))))))))))))
  refine ⟨[sample.metricType.debug, sample.timestamp.fixed 3, avg.fixed 3, min.fixed 3,
    med.fixed 3, max.fixed 3, p90.fixed 3, p95.fixed 3, natText count, rate.fixed 6], ?_, rfl⟩
  simpa [DuckDb.rowText, hvalue, Escape.intercalate_cons] using hread

/-! ## Tags -/

/-- No sample with other tags has the same column. -/
def Determines (order : HashOrder Str Str) (tags : KeyMap Str Str) : Prop :=
  ∀ (order' : HashOrder Str Str) (tags' : KeyMap Str Str),
    tagsColumn order' tags' = tagsColumn order tags → tags'.entries.Perm tags.entries

theorem iter_of_singleton (order : HashOrder Str Str) {tags : KeyMap Str Str} {tag : Str × Str}
    (h : tags.entries = [tag]) : order.iter tags = [tag] := by
  have hperm := order.perm tags
  rw [h] at hperm
  exact hperm.eq_singleton

theorem tagsColumn_of_singleton (order : HashOrder Str Str) {tags : KeyMap Str Str}
    {tag : Str × Str}
    (h : tags.entries = [tag]) : tagsColumn order tags = tag.1 ++ '=' :: tag.2 := by
  rw [tagsColumn, iter_of_singleton order h, List.map_singleton, List.intercalate_singleton]

/-- A map with one tag. -/
def singleTag (tag : Str × Str) : KeyMap Str Str := ⟨[tag], List.nodup_singleton _⟩

/-- Every equals sign of a column can be read as that of its only tag. -/
theorem Determines.eq_singleton {order : HashOrder Str Str} {tags : KeyMap Str Str}
    (h : Determines order tags)
    {key value : Str} (hcolumn : tagsColumn order tags = key ++ '=' :: value) :
    tags.entries = [(key, value)] := by
  have hperm :=
    h order (singleTag (key, value)) ((tagsColumn_of_singleton order rfl).trans hcolumn.symm)
  exact hperm.symm.eq_singleton

theorem length_le_count_tagsColumn (order : HashOrder Str Str) (tags : KeyMap Str Str) :
    tags.entries.length ≤ (tagsColumn order tags).count '=' := by
  rw [tagsColumn, Str.count_intercalate '=' ';' (by decide), ← (order.perm tags).length_eq]
  induction order.iter tags with
  | nil => exact le_rfl
  | cons tag rest ih =>
      simp only [List.map_cons, List.sum_cons, List.count_append, List.count_cons_self,
        List.length_cons]
      omega

theorem tagsColumn_eq_nil_iff (order : HashOrder Str Str) (tags : KeyMap Str Str) :
    tagsColumn order tags = [] ↔ tags.entries = [] := by
  constructor
  · intro hnil
    have hcount := length_le_count_tagsColumn order tags
    rw [hnil] at hcount
    exact List.eq_nil_of_length_eq_zero (Nat.le_zero.mp hcount)
  · intro hnil
    have hperm := order.perm tags
    rw [hnil] at hperm
    rw [tagsColumn, hperm.eq_nil]
    rfl

/-- The column of the only tag is that of no other map when its equals sign is the only one. -/
theorem determines_of_single {order : HashOrder Str Str} {tags : KeyMap Str Str} {key value : Str}
    (htags : tags.entries = [(key, value)]) (hkey : '=' ∉ key) (hvalue : '=' ∉ value) :
    Determines order tags := by
  intro order' tags' hcolumn
  have hsingle := tagsColumn_of_singleton order htags
  have hcount := length_le_count_tagsColumn order' tags'
  rw [hcolumn, hsingle, List.count_append, List.count_cons_self, List.count_eq_zero.mpr hkey,
    List.count_eq_zero.mpr hvalue] at hcount
  cases hentries : tags'.entries with
  | nil =>
      rw [(tagsColumn_eq_nil_iff order' tags').mpr hentries, hsingle] at hcolumn
      exact absurd hcolumn.symm (List.append_ne_nil_of_right_ne_nil _ (List.cons_ne_nil _ _))
  | cons tag rest =>
      rw [hentries, List.length_cons] at hcount
      have hrest : rest = [] := List.eq_nil_of_length_eq_zero (by omega)
      rw [hrest] at hentries
      rw [tagsColumn_of_singleton order' hentries, hsingle] at hcolumn
      have hcountEq := congrArg (List.count '=') hcolumn
      simp only [List.count_append, List.count_cons_self, List.count_eq_zero.mpr hkey,
        List.count_eq_zero.mpr hvalue]
        at hcountEq
      have hkey' : '=' ∉ tag.1 := List.count_eq_zero.mp (by omega)
      have hsplit := Str.splitOnce_append_cons '=' tag.1 tag.2 hkey'
      rw [hcolumn, Str.splitOnce_append_cons '=' key value hkey] at hsplit
      obtain ⟨hfst, hsnd⟩ := Prod.mk.inj hsplit
      rw [hrest, htags, hfst, Option.some.inj hsnd]

/-- The semicolons and equals signs of a column are those between its tags. -/
def PlainTags (tags : KeyMap Str Str) : Prop :=
  ∀ tag ∈ tags.entries, (';' ∉ tag.1 ∧ '=' ∉ tag.1) ∧ ';' ∉ tag.2

theorem splitOn_tagsColumn (order : HashOrder Str Str) {tags : KeyMap Str Str} (h : PlainTags tags)
    (hne : tags.entries ≠ []) :
    (tagsColumn order tags).splitOn ';' = (order.iter tags).map fun tag =>
    tag.1 ++ '=' :: tag.2 := by
  rw [tagsColumn, List.splitOn_intercalate]
  · rw [List.forall_mem_map]
    intro tag htag
    have hplain := h tag ((order.perm tags).mem_iff.mp htag)
    simp [hplain.1.1, hplain.2]
  · rw [ne_eq, List.map_eq_nil_iff]
    exact fun hnil => hne (List.nil_perm.mp (hnil ▸ order.perm tags))

/-- Plain tags are told apart by their columns. -/
theorem perm_of_tagsColumn_eq {order order' : HashOrder Str Str} {tags tags' : KeyMap Str Str}
    (h : PlainTags tags)
    (h' : PlainTags tags') (heq : tagsColumn order tags = tagsColumn order' tags') :
    tags.entries.Perm tags'.entries := by
  by_cases hempty : tags.entries = []
  · rw [(tagsColumn_eq_nil_iff order tags).mpr hempty] at heq
    rw [hempty, (tagsColumn_eq_nil_iff order' tags').mp heq.symm]
  have hempty' : tags'.entries ≠ [] := by
    intro hnil
    rw [(tagsColumn_eq_nil_iff order' tags').mpr hnil] at heq
    exact hempty ((tagsColumn_eq_nil_iff order tags).mp heq)
  have hparts := splitOn_tagsColumn order h hempty
  rw [heq, splitOn_tagsColumn order' h' hempty'] at hparts
  have hread := congrArg (List.map (Str.splitOnce '=')) hparts
  have hsplit {tags : KeyMap Str Str} (h : PlainTags tags) (order : HashOrder Str Str) :
      ((order.iter tags).map fun tag => tag.1 ++ '=' :: tag.2).map (Str.splitOnce '=') =
        (order.iter tags).map fun tag => (tag.1, some tag.2) := by
    rw [List.map_map]
    refine List.map_congr_left fun tag htag => ?_
    exact Str.splitOnce_append_cons '=' tag.1 tag.2 (h tag ((order.perm tags).mem_iff.mp htag)).1.2
  rw [hsplit h' order', hsplit h order] at hread
  have hinjective : Function.Injective fun tag : Str × Str => (tag.1, some tag.2) := by
    rintro ⟨key, value⟩ ⟨key', value'⟩ hpair
    simpa using hpair
  have hiter : order'.iter tags' = order.iter tags := List.map_injective_iff.mpr hinjective hread
  exact (order.perm tags).symm.trans (hiter ▸ order'.perm tags')

/-- The columns that the header names. -/
def headerColumns : List Str :=
  ["metric_name".toList, "timestamp".toList, "metric_type".toList, "metric_value".toList,
    "tags".toList]

theorem readRecord_header : readRecord CsvOutput.header = some headerColumns := by decide +kernel

/-- A row is read back by the columns of the header. Its tags are determined exactly when there is
none, or one without further equals signs. -/
theorem rows_readBack_and_determines_iff (order : HashOrder Str Str) :
    readRecord CsvOutput.header = some headerColumns ∧
      (∀ sample, readRecord (CsvOutput.rowText order sample) =
        some [sample.metric, sample.timestamp.fixed 3, sample.metricType.debug,
          CsvOutput.valueText sample.value, tagsColumn order sample.tags]) ∧
      (∀ sample, ∃ columns, readRecord (DuckDb.rowText order sample) =
        some (sample.metric :: columns ++ [tagsColumn order sample.tags]) ∧ columns.length = 10) ∧
      ∀ tags, Determines order tags ↔
        tags.entries = [] ∨ ∃ key value, tags.entries = [(key, value)] ∧ '=' ∉ key ∧
        '=' ∉ value := by
  refine ⟨readRecord_header, readRecord_csvRow order, readRecord_duckDbRow order,
    fun tags => ⟨fun h => ?_, ?_⟩⟩
  · by_cases hempty : tags.entries = []
    · exact .inl hempty
    right
    -- The text up to the first equals sign is the key, and the text after it the value.
    obtain ⟨key, value, hcolumn, hkey⟩ : ∃ key value,
      tagsColumn order tags = key ++ '=' :: value ∧ '=' ∉ key := by
      have hmem : '=' ∈ tagsColumn order tags := by
        rw [← List.count_pos_iff]
        exact (List.length_pos_iff.mpr hempty).trans_le (length_le_count_tagsColumn order tags)
      obtain ⟨key, value, hcolumn, hkey⟩ := List.eq_append_cons_of_mem hmem
      exact ⟨key, value, hcolumn, hkey⟩
    have htags := h.eq_singleton hcolumn
    refine ⟨key, value, htags, hkey, fun hvalue => ?_⟩
    -- A second equals sign would be that of another only tag.
    obtain ⟨front, back, rfl⟩ := List.append_of_mem hvalue
    have hother := @Determines.eq_singleton _ _ h (key ++ '=' :: front) back (by rw [hcolumn]; simp)
    rw [htags] at hother
    have hlength := congrArg List.length (Prod.mk.inj (List.cons.inj hother).1).1
    simp at hlength
  · rintro (hempty | ⟨key, value, htags, hkey, hvalue⟩)
    · intro order' tags' hcolumn
      rw [(tagsColumn_eq_nil_iff order tags).mpr hempty, tagsColumn_eq_nil_iff] at hcolumn
      rw [hcolumn, hempty]
    · exact determines_of_single htags hkey hvalue

/-- Two tags, and one whose value holds the text of the second. -/
theorem not_determines_twoTags :
    ¬∀ order tags, Determines order tags := by
  intro h
  let order : HashOrder Str Str := ⟨KeyMap.entries, fun _ => .refl _⟩
  let twoTags : KeyMap Str Str := ⟨[("a".toList, "1".toList), ("b".toList, "2".toList)], by decide⟩
  have hperm := h order twoTags order (singleTag ("a".toList, "1;b=2".toList)) (by decide)
  exact absurd hperm.length_eq (by decide)

end K6Rs
