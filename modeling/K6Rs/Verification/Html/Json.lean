import K6Rs.Library.Except
import K6Rs.Library.JsonParseExact
import K6Rs.Model.Html

/-! # The JSON text of elements

Attribute names stand in the text as they are. A text in which one must be escaped is shorter than
any text of the records, so it is none of them. -/

namespace K6Rs

open JsonTree

/-- The members of an object give a record: of a repeated key the last member counts, and there are
as many keys of attributes as the element has attributes. -/
structure DecodesTo (members : List (Str × JsonTree)) (record : HtmlRecord) : Prop where
  keys : ∀ member ∈ members,
    member.1 ∈ ["html".toList, "text".toList, "outerHtml".toList, "attrs".toList]
  html : lastValue members "html".toList = some (.string record.html)
  text : lastValue members "text".toList = some (.string record.text)
  outerHtml : lastValue members "outerHtml".toList = some (.string record.outerHtml)
  attrs : ∃ attrs, lastValue members "attrs".toList = some (.object attrs) ∧
    (attrs.map Prod.fst).dedup.length = record.attrs.length ∧
    ∀ name, lastValue attrs name = (record.attrs.lookup name).map .string

/-- A value is the object of a record. -/
def IsValueOf (v : JsonTree) (record : HtmlRecord) : Prop :=
  ∃ members, v = .object members ∧ DecodesTo members record

/-- The text is JSON for the records. -/
def DecodesAll (text : Str) (records : List HtmlRecord) : Prop :=
  ∃ items, ReadsText text (.array (items.map .object)) ∧ List.Forall₂ DecodesTo items records

/-- The characters that stand in a JSON string as they are. -/
def IsPlainText (s : Str) : Prop := ∀ c ∈ s, c ≠ '"' ∧ c ≠ '\\' ∧ 32 ≤ c.toNat

def attrMembers (record : HtmlRecord) : List (Str × JsonTree) :=
  record.attrs.map fun attr => (attr.1, .string attr.2)

/-- The members of a record, with these for its attributes. -/
def recordMembers (record : HtmlRecord) (attrs : List (Str × JsonTree)) : List (Str × JsonTree) :=
  [("html".toList, .string record.html), ("text".toList, .string record.text),
    ("outerHtml".toList, .string record.outerHtml), ("attrs".toList, .object attrs)]

/-- The value that the text of a record is meant for. -/
def recordTree (record : HtmlRecord) : JsonTree :=
  object (recordMembers record (attrMembers record))

theorem recordJson_eq (record : HtmlRecord) :
    recordJson record = objectText [memberText "html".toList (JsonText.string record.html),
      memberText "text".toList (JsonText.string record.text),
      memberText "outerHtml".toList (JsonText.string record.outerHtml),
      memberText "attrs".toList (objectText (record.attrs.map attrJson))] := rfl

theorem map_fst_attrMembers (record : HtmlRecord) :
    (attrMembers record).map Prod.fst = record.attrs.map Prod.fst := by
  rw [attrMembers, List.map_map]
  rfl

/-! ## Plain names -/

theorem nodup_recordMembers (record : HtmlRecord) (attrs : List (Str × JsonTree)) :
    ((recordMembers record attrs).map Prod.fst).Nodup := by
  simp only [recordMembers, List.map_cons, List.map_nil]
  decide

theorem reads_recordJson {record : HtmlRecord} (h : ∀ attr ∈ record.attrs, IsPlainText attr.1) :
    Reads (recordJson record) (.object (recordMembers record (attrMembers record))) := by
  have hattrs : Reads (objectText (record.attrs.map attrJson)) (.object (attrMembers record)) := by
    have hreads := @reads_objectText
      (record.attrs.map fun attr => (attr.1, JsonText.string attr.2, JsonTree.string attr.2))
      (by rw [List.forall_mem_map]; exact h)
      (by rw [List.forall_mem_map]; exact fun attr _ => reads_string attr.2)
    rw [List.map_map, List.map_map] at hreads
    exact hreads
  have hrecord := @reads_objectText
    [("html".toList, JsonText.string record.html, .string record.html),
      ("text".toList, JsonText.string record.text, .string record.text),
      ("outerHtml".toList, JsonText.string record.outerHtml, .string record.outerHtml),
      ("attrs".toList, objectText (record.attrs.map attrJson), .object (attrMembers record))]
    (by
      simp only [List.forall_mem_cons]
      exact ⟨List.all_iff_forall_prop.mp (by decide), List.all_iff_forall_prop.mp (by decide),
        List.all_iff_forall_prop.mp (by decide), List.all_iff_forall_prop.mp (by decide),
        List.forall_mem_nil _⟩)
    (by
      simp only [List.forall_mem_cons]
      exact ⟨reads_string _, reads_string _, reads_string _, hattrs, List.forall_mem_nil _⟩)
  rw [recordJson_eq]
  exact hrecord

theorem decodesTo_recordMembers {record : HtmlRecord} (hnodup : (record.attrs.map Prod.fst).Nodup) :
    DecodesTo (recordMembers record (attrMembers record)) record := by
  have hmembers := nodup_recordMembers record (attrMembers record)
  refine ⟨by simp [recordMembers], lastValue_of_mem hmembers (by simp [recordMembers]),
    lastValue_of_mem hmembers (by simp [recordMembers]),
    lastValue_of_mem hmembers (by simp [recordMembers]), attrMembers record,
    lastValue_of_mem hmembers (by simp [recordMembers]), ?_, fun name => ?_⟩
  · rw [map_fst_attrMembers, hnodup.dedup, List.length_map]
  have hkeys : ((attrMembers record).map Prod.fst).Nodup := by
    rw [map_fst_attrMembers]
    exact hnodup
  cases hname : record.attrs.lookup name with
  | none =>
      rw [Option.map_none, lastValue, List.lookup_eq_none_iff]
      intro member hmember
      obtain ⟨attr, hattr, rfl⟩ := List.mem_map.mp (List.mem_reverse.mp hmember)
      exact List.lookup_eq_none_iff.mp hname attr hattr
  | some value =>
      obtain ⟨front, back, hattrs, -⟩ := List.lookup_eq_some_iff.mp hname
      have hmem : (name, value) ∈ record.attrs := by simp [hattrs]
      exact lastValue_of_mem hkeys (List.mem_map.mpr ⟨_, hmem, rfl⟩)

/-! ## Lengths -/

theorem length_memberText (key text : Str) :
    (memberText key text).length = key.length + 3 + text.length := by
  simp only [memberText, List.length_cons, List.length_append]
  omega

theorem length_le_string (s : Str) : s.length + 2 ≤ (JsonText.string s).length := by
  have hlength := length_le_flatMap_escape s
  rw [length_string]
  omega

/-- An attribute is no longer than its member, and shorter when a character of its name must be
escaped. -/
theorem length_attrJson (attr : Str × Str) :
    (attrJson attr).length + 1 ≤ memberSize (attr.1, .string attr.2) ∧
      (¬IsPlainText attr.1 → (attrJson attr).length + 1 < memberSize (attr.1, .string attr.2)) := by
  have hjson : (attrJson attr).length = attr.1.length + 3 + (JsonText.string attr.2).length :=
    length_memberText _ _
  have hsize : memberSize (attr.1, .string attr.2) =
      (JsonText.string attr.1).length + 1 + (JsonText.string attr.2).length + 1 := rfl
  have hname := length_le_string attr.1
  rw [hjson, hsize]
  refine ⟨by omega, fun hplain => ?_⟩
  obtain ⟨c, hc, hescape⟩ : ∃ c ∈ attr.1, ¬(c ≠ '"' ∧ c ≠ '\\' ∧ 32 ≤ c.toNat) := by
    simpa only [IsPlainText, not_forall, exists_prop] using hplain
  have hlong := length_lt_string hc hescape
  omega

theorem length_attrsJson (record : HtmlRecord) :
    (attrsJson record.attrs).length ≤ (object (attrMembers record)).size ∧
      ((∃ attr ∈ record.attrs, ¬IsPlainText attr.1) →
        (attrsJson record.attrs).length < (object (attrMembers record)).size) := by
  have hlength : (attrsJson record.attrs).length =
      2 + ((record.attrs.map fun attr => (attrJson attr).length + 1).sum - 1) := by
    have htext := length_objectText (record.attrs.map attrJson)
    rw [List.map_map] at htext
    exact htext
  have hsize : (object (attrMembers record)).size =
      2 + ((record.attrs.map fun attr => memberSize (attr.1, .string attr.2)).sum - 1) := by
    rw [size, membersSize_eq, attrMembers, List.map_map]
    rfl
  rw [hlength, hsize]
  constructor
  · have hsum := List.sum_le_sum fun attr (_ : attr ∈ record.attrs) => (length_attrJson attr).1
    omega
  · rintro ⟨attr, hattr, hplain⟩
    have hsum :=
      List.sum_lt_sum _ _ (fun attr (_ : attr ∈ record.attrs) => (length_attrJson attr).1)
      ⟨attr, hattr, (length_attrJson attr).2 hplain⟩
    have hone : 1 ≤ (record.attrs.map fun attr => (attrJson attr).length + 1).sum := by
      have hmem : (attrJson attr).length + 1 ∈ record.attrs.map fun attr =>
          (attrJson attr).length + 1 :=
        List.mem_map_of_mem hattr
      have hle := List.single_le_sum (fun _ _ => Nat.zero_le _) _ hmem
      omega
    omega

theorem length_recordJson_add (record : HtmlRecord) (attrs : List (Str × JsonTree)) :
    (recordJson record).length + (object attrs).size =
      (object (recordMembers record attrs)).size + (attrsJson record.attrs).length := by
  have hhtml : (JsonText.string "html".toList).length = "html".toList.length + 2 := by decide
  have htext : (JsonText.string "text".toList).length = "text".toList.length + 2 := by decide
  have houterHtml : (JsonText.string "outerHtml".toList).length =
      "outerHtml".toList.length + 2 := by decide
  have hattrs : (JsonText.string "attrs".toList).length = "attrs".toList.length + 2 := by decide
  have hjson : (recordJson record).length =
      2 + (("html".toList.length + 3 + (JsonText.string record.html).length + 1 +
        ("text".toList.length + 3 + (JsonText.string record.text).length + 1 +
          ("outerHtml".toList.length + 3 + (JsonText.string record.outerHtml).length + 1 +
            ("attrs".toList.length + 3 + (attrsJson record.attrs).length + 1)))) - 1) := by
    rw [recordJson_eq, length_objectText]
    simp only [List.map_cons, List.map_nil, List.sum_cons, List.sum_nil, length_memberText,
      Nat.add_zero]
    rfl
  have hsize : (object (recordMembers record attrs)).size =
      2 + (((JsonText.string "html".toList).length + 1 + (JsonText.string record.html).length + 1 +
        ((JsonText.string "text".toList).length + 1 + (JsonText.string record.text).length + 1 +
          ((JsonText.string "outerHtml".toList).length + 1 +
            (JsonText.string record.outerHtml).length + 1 +
            ((JsonText.string "attrs".toList).length + 1 + (object attrs).size + 1)))) - 1) := rfl
  rw [hjson, hsize, hhtml, htext, houterHtml, hattrs]
  omega

/-! ## Texts of records -/

/-- Two attributes of one name have one key. -/
theorem nodup_of_decodesTo {members : List (Str × JsonTree)} {record : HtmlRecord}
    (h : DecodesTo members record) :
    (record.attrs.map Prod.fst).Nodup := by
  obtain ⟨attrs, -, hlength, hlookup⟩ := h.attrs
  have hkeys (name : Str) : name ∈ attrs.map Prod.fst ↔ name ∈ record.attrs.map Prod.fst := by
    have hlast := congrArg Option.isSome (hlookup name)
    rw [Option.isSome_map, lastValue] at hlast
    rw [mem_keys_iff, mem_keys_iff, ← hlast, ← mem_keys_iff,
      ← mem_keys_iff, List.map_reverse, List.mem_reverse]
  have hperm : (attrs.map Prod.fst).dedup.Perm (record.attrs.map Prod.fst).dedup :=
    (List.perm_ext_iff_of_nodup (List.nodup_dedup _) (List.nodup_dedup _)).mpr fun name => by
      rw [List.mem_dedup, List.mem_dedup, hkeys]
  have hall : (record.attrs.map Prod.fst).dedup.length = (record.attrs.map Prod.fst).length := by
    rw [← hperm.length_eq, hlength, List.length_map]
  rw [← List.dedup_eq_self]
  exact (List.dedup_sublist _).eq_of_length hall

/-- No object that gives a record is smaller than that of its members. -/
theorem size_le_of_decodesTo {members : List (Str × JsonTree)} {record : HtmlRecord}
    (h : DecodesTo members record) :
    (recordTree record).size ≤ (object members).size := by
  rw [recordTree]
  have hnodup := nodup_of_decodesTo h
  obtain ⟨attrs, hattrs, -, hlookup⟩ := h.attrs
  have hsubset : attrMembers record ⊆ attrs := by
    intro member hmember
    obtain ⟨attr, hattr, rfl⟩ := List.mem_map.mp hmember
    apply mem_of_lastValue
    rw [hlookup, lookup_of_mem hnodup hattr]
    rfl
  have hkeys : ((attrMembers record).map Prod.fst).Nodup := by
    rw [map_fst_attrMembers]
    exact hnodup
  have hattrsSize := size_object_le hkeys hsubset
  have hmembers : recordMembers record attrs ⊆ members := by
    intro member hmember
    simp only [recordMembers, List.mem_cons, List.not_mem_nil, or_false] at hmember
    rcases hmember with rfl | rfl | rfl | rfl
    · exact mem_of_lastValue h.html
    · exact mem_of_lastValue h.text
    · exact mem_of_lastValue h.outerHtml
    · exact mem_of_lastValue hattrs
  have hmembersSize := size_object_le (nodup_recordMembers record attrs) hmembers
  have hown := length_recordJson_add record (attrMembers record)
  have hgiven := length_recordJson_add record attrs
  omega

theorem itemsSize_le_of_isValueOf {items : List JsonTree} {records : List HtmlRecord}
    (h : List.Forall₂ IsValueOf items records) :
    itemsSize (records.map recordTree) ≤ itemsSize items := by
  induction h with
  | nil => exact le_rfl
  | cons hrecord _ ih =>
      obtain ⟨members, rfl, hdecodes⟩ := hrecord
      have hsize := size_le_of_decodesTo hdecodes
      simp only [List.map_cons, itemsSize]
      omega

/-- A record is no longer than its value, and shorter when a name must be escaped. -/
theorem length_recordJson (record : HtmlRecord) :
    (recordJson record).length ≤ (recordTree record).size ∧
      ((∃ attr ∈ record.attrs, ¬IsPlainText attr.1) →
        (recordJson record).length < (recordTree record).size) := by
  have hadd := length_recordJson_add record (attrMembers record)
  have hattrs := length_attrsJson record
  rw [recordTree]
  refine ⟨by omega, fun hplain => ?_⟩
  have hlt := hattrs.2 hplain
  omega

theorem length_recordsJson (records : List HtmlRecord) : (recordsJson records).length =
    2 + ((records.map fun record => (recordJson record).length + 1).sum - 1) := by
  have htext := length_arrayText (records.map recordJson)
  rw [List.map_map] at htext
  exact htext

theorem size_recordTrees (records : List HtmlRecord) : (array (records.map recordTree)).size =
    2 + ((records.map fun record => (recordTree record).size + 1).sum - 1) := by
  rw [size, itemsSize_eq, List.map_map]
  rfl

theorem length_recordsJson_le (records : List HtmlRecord) :
    (recordsJson records).length ≤ (array (records.map recordTree)).size := by
  have hsum := List.sum_le_sum fun record (_ : record ∈ records) =>
    Nat.add_le_add_right (length_recordJson record).1 1
  rw [length_recordsJson, size_recordTrees]
  omega

/-- A name that must be escaped makes the text shorter than the size of the records. -/
theorem length_recordsJson_lt {records : List HtmlRecord} {record : HtmlRecord}
    (hrecord : record ∈ records) (hplain : ∃ attr ∈ record.attrs, ¬IsPlainText attr.1) :
    (recordsJson records).length < (array (records.map recordTree)).size := by
  have hsum := List.sum_lt_sum _ _
    (fun record (_ : record ∈ records) => Nat.add_le_add_right (length_recordJson record).1 1)
    ⟨record, hrecord, Nat.add_lt_add_right ((length_recordJson record).2 hplain) 1⟩
  have hone : 1 ≤ (records.map fun record => (recordJson record).length + 1).sum := by
    have hmem : (recordJson record).length + 1 ∈
        records.map fun record => (recordJson record).length + 1 := List.mem_map_of_mem hrecord
    have hsingle := List.single_le_sum (fun _ _ => Nat.zero_le _) _ hmem
    omega
  rw [length_recordsJson, size_recordTrees]
  omega

theorem readsText_recordsJson {records : List HtmlRecord}
    (hplain : ∀ record ∈ records, ∀ attr ∈ record.attrs, IsPlainText attr.1) :
    ReadsText (recordsJson records) (.array (records.map recordTree)) := by
  have hreads := @reads_arrayText (records.map fun record => (recordJson record, recordTree record))
    (by
      rw [List.forall_mem_map]; exact fun record hrecord =>
      reads_recordJson (hplain record hrecord))
  rw [List.map_map, List.map_map] at hreads
  exact ⟨[], recordsJson records, [], by simp, isBlank_nil, isBlank_nil, hreads⟩

/-- The items of the text are no larger than the values of the records, and smaller when a name
must be escaped. -/
theorem itemsSize_le_of_readsText {records : List HtmlRecord} {items : List JsonTree}
    (h : ReadsText (recordsJson records) (.array items)) :
    itemsSize items ≤ itemsSize (records.map recordTree) ∧
      ((∃ record ∈ records, ∃ attr ∈ record.attrs, ¬IsPlainText attr.1) →
        itemsSize items < itemsSize (records.map recordTree)) := by
  cases records with
  | nil =>
      have hnil : array items = array [] :=
        h.unique (readsText_recordsJson (List.forall_mem_nil _))
      cases hnil
      exact ⟨le_rfl, by simp⟩
  | cons record records =>
      have hsize := size_le_of_readsText h
      have hle := length_recordsJson_le (record :: records)
      have hpos : 1 ≤ itemsSize ((record :: records).map recordTree) := by
        rw [List.map_cons, itemsSize]
        omega
      rw [size] at hsize hle
      refine ⟨by omega, ?_⟩
      rintro ⟨record', hrecord, hplain⟩
      have hlt := length_recordsJson_lt hrecord hplain
      rw [size] at hlt
      omega

theorem itemsSize_append (xs ys : List JsonTree) :
    itemsSize (xs ++ ys) = itemsSize xs + itemsSize ys := by
  simp [itemsSize_eq]

/-- No name must be escaped when several texts together are JSON for the records. -/
theorem isPlainText_of_readsTexts {recordss : List (List HtmlRecord)}
    {itemss : List (List JsonTree)}
    (htexts : List.Forall₂ (fun records items => ReadsText (recordsJson records) (.array items))
      recordss itemss)
    (hvalues : List.Forall₂ IsValueOf itemss.flatten recordss.flatten) :
    ∀ record ∈ recordss.flatten, ∀ attr ∈ record.attrs, IsPlainText attr.1 := by
  have hsizes : itemsSize itemss.flatten ≤ itemsSize (recordss.flatten.map recordTree) ∧
      ((∃ record ∈ recordss.flatten, ∃ attr ∈ record.attrs, ¬IsPlainText attr.1) →
        itemsSize itemss.flatten < itemsSize (recordss.flatten.map recordTree)) := by
    clear hvalues
    induction htexts with
    | nil => exact ⟨le_rfl, by simp⟩
    | @cons records items recordss itemss htext _ ih =>
        have hfirst := itemsSize_le_of_readsText htext
        simp only [List.flatten_cons, List.map_append, itemsSize_append]
        refine ⟨by omega, ?_⟩
        rintro ⟨record, hrecord, hplain⟩
        rcases List.mem_append.mp hrecord with hrecord | hrecord
        · have hlt := hfirst.2 ⟨record, hrecord, hplain⟩
          omega
        · have hlt := ih.2 ⟨record, hrecord, hplain⟩
          omega
  have hle := itemsSize_le_of_isValueOf hvalues
  intro record hrecord attr hattr
  by_contra hplain
  have hlt := hsizes.2 ⟨record, hrecord, attr, hattr, hplain⟩
  omega

/-- No character of a name must be escaped when the text is JSON for the records. -/
theorem isPlainText_of_decodesAll {records : List HtmlRecord} {record : HtmlRecord}
    {attr : Str × Str}
    (hrecord : record ∈ records) (hattr : attr ∈ record.attrs)
    (h : DecodesAll (recordsJson records) records) : IsPlainText attr.1 := by
  obtain ⟨items, htext, hitems⟩ := h
  have hvalues : List.Forall₂ IsValueOf (items.map object) records :=
    List.forall₂_map_left_iff.mpr (hitems.imp fun members record h => ⟨members, rfl, h⟩)
  exact isPlainText_of_readsTexts (.cons htext .nil) (by simpa using hvalues) record
    (by simpa using hrecord) attr hattr

theorem isValueOf_recordTree {record : HtmlRecord} (hnodup : (record.attrs.map Prod.fst).Nodup) :
    IsValueOf (recordTree record) record := ⟨_, rfl, decodesTo_recordMembers hnodup⟩

theorem decodesAll_of_isPlainText {records : List HtmlRecord}
    (hnodup : ∀ record ∈ records, (record.attrs.map Prod.fst).Nodup)
    (hplain : ∀ record ∈ records, ∀ attr ∈ record.attrs, IsPlainText attr.1) :
    DecodesAll (recordsJson records) records := by
  refine ⟨records.map fun record => recordMembers record (attrMembers record), ?_, ?_⟩
  · rw [List.map_map]
    exact readsText_recordsJson hplain
  · rw [List.forall₂_map_left_iff, List.forall₂_same]
    exact fun record hrecord => decodesTo_recordMembers (hnodup record hrecord)

/-- The text of elements is JSON for them exactly when no element has a name twice and no name of an
attribute has a character that must be escaped. -/
theorem decodesAll_iff {records : List HtmlRecord} :
    DecodesAll (recordsJson records) records ↔
      ∀ record ∈ records, (record.attrs.map Prod.fst).Nodup ∧
        ∀ attr ∈ record.attrs, ∀ c ∈ attr.1, c ≠ '"' ∧ c ≠ '\\' ∧ 32 ≤ c.toNat := by
  constructor
  · intro h record hrecord
    constructor
    · obtain ⟨items, -, hitems⟩ := h
      obtain ⟨members, -, hmembers⟩ := List.exists_mem_of_forall₂ hitems.flip hrecord
      exact nodup_of_decodesTo hmembers
    · exact fun attr hattr => isPlainText_of_decodesAll hrecord hattr h
  · exact fun h => decodesAll_of_isPlainText (fun record hrecord => (h record hrecord).1)
      fun record hrecord => (h record hrecord).2

/-- The element of `<b a"=x></b>`. -/
theorem not_decodesAll_quote : ¬∀ records, DecodesAll (recordsJson records) records := by
  intro h
  have hplain := @isPlainText_of_decodesAll
    [⟨[], [], "<b a\"=\"x\"></b>".toList, [("a\"".toList, "x".toList)]⟩] _
      ("a\"".toList, "x".toList)
    List.mem_cons_self List.mem_cons_self (h _)
  exact (hplain '"' (by decide)).1 rfl

end K6Rs
