import K6Rs.Verification.Selector.RoundTrip

/-! The grammar of metric selectors, and that the parser accepts exactly its texts. A name, a key
and a value are taken without the white space around them. -/

namespace K6Rs.MetricSelector

/-! ## The grammar -/

/-- The text of one pair, `key:value`. -/
structure IsTag (text : Str) (a : Str × Str) : Prop where
  text : ∃ key value, Str.trim text = key ++ ':' :: value ∧ Str.trim key = a.1 ∧
    Str.trim value = a.2
  key_ne_nil : a.1 ≠ []
  key_clean : containsReserved a.1 = false
  value_clean : ',' ∉ a.2

/-- The text between the braces: blank, or pairs with commas between them. -/
def IsTagList (inner : Str) (pairs : List (Str × Str)) : Prop :=
  Str.trim inner = [] ∧ pairs = [] ∨
    ∃ texts, inner = [','].intercalate texts ∧ List.Forall₂ IsTag texts pairs

/-- The text denotes a name with a list of pairs; the closing brace is the last character. -/
structure Denotes (s name : Str) (pairs : List (Str × Str)) : Prop where
  name_ne_nil : name ≠ []
  name_clean : containsReserved name = false
  nodup : (pairs.map Prod.fst).Nodup
  text : Str.trim s = name ∧ pairs = [] ∨
    ∃ before inner, Str.trim s = before ++ '{' :: (inner ++ ['}']) ∧ Str.trim before = name ∧
      IsTagList inner pairs

/-! ## Pairs -/

theorem colon_not_mem_of_trim {key : Str} (h : containsReserved (Str.trim key) = false) :
    ':' ∉ key := by
  intro hmem
  exact (not_mem_of_not_containsReserved h).2.2.1 (Str.mem_trim_of_mem hmem (by decide))

/-- One pair is accepted exactly when it is in the grammar and its key is new. -/
theorem parsePairs_cons_iff (text : Str) (texts : List Str) (tags tags' : TagMap) :
    parsePairs (text :: texts) tags = .ok tags' ↔
      ∃ a, IsTag text a ∧ tags.contains a.1 = false ∧
        parsePairs texts (tags.insert a.1 a.2) = .ok tags' := by
  constructor
  · intro h
    simp only [parsePairs] at h
    split at h
    · cases h
    split at h
    · cases h
    rename_i keyRaw valueRaw hsplit
    split at h
    · cases h
    rename_i hkey
    split at h
    · cases h
    rename_i hclean
    split at h
    · cases h
    rename_i hnew
    obtain ⟨hk, hv⟩ := Bool.or_eq_false_iff.mp (Bool.eq_false_iff.mpr hclean)
    refine ⟨(Str.trim keyRaw, Str.trim valueRaw), ⟨⟨keyRaw, valueRaw, ?_, rfl, rfl⟩, ?_, hk, ?_⟩,
      Bool.eq_false_iff.mpr hnew, h⟩
    · exact (Str.splitOnce_eq_some_iff.mp hsplit).1
    · simpa using hkey
    · exact (containsReservedValue_eq_false_iff _).mp hv
  · rintro ⟨⟨k, v⟩, ⟨⟨key, value, htext, rfl, rfl⟩, hne, hk, hv⟩, hnew, hrest⟩
    have hsplit : Str.splitOnce ':' (Str.trim text) = (key, some value) :=
      Str.splitOnce_eq_some_iff.mpr ⟨htext, colon_not_mem_of_trim hk⟩
    have hnonempty : (Str.trim text).isEmpty = false := by simp [htext]
    rw [parsePairs]
    simp only [hnonempty, hsplit]
    simpa [hne, hk, (containsReservedValue_eq_false_iff _).mpr hv, hnew] using hrest

theorem contains_insert (tags : TagMap) (k v j : Str) :
    (tags.insert k v).contains j = (decide (j = k) || tags.contains j) := by
  rw [SortedMap.contains, SortedMap.contains, SortedMap.find?_insert]
  split <;> simp [*]

/-- A list of pairs is accepted exactly when it is in the grammar with new and distinct keys. -/
theorem parsePairs_eq_ok_iff (texts : List Str) (tags tags' : TagMap) :
    parsePairs texts tags = .ok tags' ↔
      ∃ pairs, List.Forall₂ IsTag texts pairs ∧ (pairs.map Prod.fst).Nodup ∧
        (∀ a ∈ pairs, tags.contains a.1 = false) ∧
        pairs.foldl (fun tags a => tags.insert a.1 a.2) tags = tags' := by
  induction texts generalizing tags with
  | nil => simp [parsePairs]
  | cons text texts ih =>
      rw [parsePairs_cons_iff]
      simp only [ih, contains_insert, Bool.or_eq_false_iff, decide_eq_false_iff_not]
      constructor
      · rintro ⟨a, ha, hnew, pairs, hpairs, hnodup, hrest, rfl⟩
        refine ⟨a :: pairs, .cons ha hpairs, ?_, ?_, rfl⟩
        · rw [List.map_cons, List.nodup_cons, List.mem_map]
          refine ⟨?_, hnodup⟩
          rintro ⟨b, hb, heq⟩
          exact (hrest b hb).1 heq
        · intro b hb
          rcases List.mem_cons.mp hb with rfl | hb
          · exact hnew
          · exact (hrest b hb).2
      · rintro ⟨allPairs, htexts, hnodup, hnew, rfl⟩
        cases htexts with
        | @cons _ a _ pairs ha hpairs =>
            rw [List.map_cons, List.nodup_cons, List.mem_map] at hnodup
            refine ⟨a, ha, hnew a (by simp), pairs, hpairs, hnodup.2, ?_, rfl⟩
            intro b hb
            exact ⟨fun heq => hnodup.1 ⟨b, hb, heq⟩, hnew b (List.mem_cons_of_mem a hb)⟩

/-! ## The tag block -/

theorem comma_not_mem_of_isTag {text : Str} {a : Str × Str} (h : IsTag text a) : ',' ∉ text := by
  obtain ⟨key, value, htext, hkey, hvalue⟩ := h.text
  intro hmem
  have htrim := Str.mem_trim_of_mem hmem (by decide)
  rw [htext, List.mem_append, List.mem_cons] at htrim
  rcases htrim with hk | hcolon | hv
  · have hclean := (not_mem_of_not_containsReserved h.key_clean).2.2.2
    rw [← hkey] at hclean
    exact hclean (Str.mem_trim_of_mem hk (by decide))
  · revert hcolon
    decide
  · have hclean := h.value_clean
    rw [← hvalue] at hclean
    exact hclean (Str.mem_trim_of_mem hv (by decide))

theorem parseInner_eq_ok_iff (inner : Str) (tags : TagMap) :
    parseInner inner = .ok tags ↔
      ∃ pairs, IsTagList inner pairs ∧ (pairs.map Prod.fst).Nodup ∧
      SortedMap.ofList pairs = tags := by
  rw [parseInner]
  cases hblank : (Str.trim inner).isEmpty with
  | true =>
      have htrim : Str.trim inner = [] := List.isEmpty_iff.mp hblank
      constructor
      · intro h
        exact ⟨[], .inl ⟨htrim, rfl⟩, List.nodup_nil, Except.ok.inj h⟩
      · rintro ⟨pairs, ⟨-, rfl⟩ | ⟨texts, rfl, hpairs⟩, -, rfl⟩
        · rfl
        · cases hpairs with
          | nil => rfl
          | @cons text a texts pairs ha hpairs =>
              -- A pair has a colon, which is no white space.
              obtain ⟨key, value, htext, -⟩ := ha.text
              have hcolon : ':' ∈ text := Str.mem_of_mem_trim (by simp [htext])
              have hmem : ':' ∈ [','].intercalate (text :: texts) := by
                cases texts <;> simp [List.intercalate, hcolon]
              have hno := Str.mem_trim_of_mem hmem (by decide)
              rw [htrim] at hno
              cases hno
  | false =>
      rw [if_neg Bool.false_ne_true, parsePairs_eq_ok_iff]
      have hblank' : Str.trim inner ≠ [] := List.isEmpty_eq_false_iff.mp hblank
      constructor
      · rintro ⟨pairs, hpairs, hnodup, -, rfl⟩
        have hjoin : [','].intercalate (List.splitOn ',' inner) = inner :=
          List.intercalate_splitOn ','
        exact ⟨pairs, .inr ⟨_, hjoin.symm, hpairs⟩, hnodup, rfl⟩
      · rintro ⟨pairs, ⟨htrim, -⟩ | ⟨texts, rfl, hpairs⟩, hnodup, rfl⟩
        · exact absurd htrim hblank'
        · refine ⟨pairs, ?_, hnodup, fun _ _ => rfl, rfl⟩
          rw [List.splitOn_intercalate]
          · exact hpairs
          · intro text htext
            obtain ⟨i, hi, rfl⟩ := List.mem_iff_getElem.mp htext
            exact comma_not_mem_of_isTag (hpairs.get hi (hpairs.length_eq ▸ hi))
          · rintro rfl
            exact hblank' rfl

/-- The tag block of a trimmed text ends with its last character. -/
theorem parseTags_eq_ok_iff {before v : Str} {tags : TagMap}
    (htrim : Str.trim (before ++ '{' :: v) = before ++ '{' :: v) :
    parseTags (before ++ '{' :: v) before.length = .ok tags ↔
      ∃ inner, v = inner ++ ['}'] ∧ parseInner inner = .ok tags := by
  constructor
  · intro h
    have hparse := h
    rw [parseTags] at h
    split at h
    · cases h
    rename_i close hclose
    split at h
    · cases h
    rename_i hafter
    split at h
    · cases h
    rename_i hrest
    obtain ⟨u, rest, htext, -, hlen⟩ := (Str.rfind_eq_some_iff _ _ _).mp hclose
    have hblank : Str.trim rest = [] := by
      have hdrop : (before ++ '{' :: v).drop (close + 1) = rest := by
        rw [htext, ← hlen]
        simp [List.drop_append]
      simpa [hdrop] using hrest
    obtain rfl : rest = [] := by
      rw [htext, List.append_cons] at htrim
      exact Str.eq_nil_of_trim_append htrim ((Str.trim_eq_nil_iff rest).mp hblank)
    rcases List.eq_nil_or_concat v with rfl | ⟨inner, c, rfl⟩
    · have hsame := (List.append_inj' htext rfl).2
      cases hsame
    · rw [List.concat_eq_append] at hparse htext ⊢
      rw [← List.cons_append, ← List.append_assoc] at htext
      obtain ⟨-, hlast⟩ := List.append_inj' htext rfl
      obtain rfl : c = '}' := (List.cons.inj hlast).1
      refine ⟨inner, rfl, ?_⟩
      rw [← parseTags_append before inner]
      exact hparse
  · rintro ⟨inner, rfl, h⟩
    rw [parseTags_append, h]

/-! ## The selector -/

theorem parse_of_bare {s : Str} (h : '{' ∉ Str.trim s) :
    parse s = if (Str.trim s).isEmpty then .error .emptyName
      else if '}' ∈ Str.trim s then .error .unbalancedBraces
      else if containsReserved (Str.trim s) then .error (.invalidName (Str.trim s))
      else .ok ⟨Str.trim s, ∅⟩ := by
  rw [parse]
  simp only [(Str.find_eq_none_iff '{' _).mpr h]

theorem parse_of_tagged {s before v : Str} (h : Str.trim s = before ++ '{' :: v)
    (hbefore : '{' ∉ before) :
    parse s = if (Str.trim before).isEmpty then .error .emptyName
      else if containsReserved (Str.trim before) then .error (.invalidName (Str.trim before))
      else match parseTags (before ++ '{' :: v) before.length with
        | .error e => .error e
        | .ok tags => .ok ⟨Str.trim before, tags⟩ := by
  have hne : ¬List.isEmpty (before ++ '{' :: v) = true := by simp
  rw [parse]
  simp only [h, Str.find_append_cons '{' before v hbefore, List.take_left]
  exact if_neg hne

theorem brace_not_mem_of_trim {before : Str} (h : containsReserved (Str.trim before) = false) :
    '{' ∉ before := by
  intro hmem
  exact (not_mem_of_not_containsReserved h).1 (Str.mem_trim_of_mem hmem (by decide))

/-- The parser reads a text as a selector exactly when the text denotes it. -/
theorem parse_eq_ok_iff (s : Str) (sel : MetricSelector) :
    parse s = .ok sel ↔ ∃ pairs, Denotes s sel.name pairs ∧ SortedMap.ofList pairs = sel.tags := by
  obtain ⟨name, tags⟩ := sel
  by_cases hbrace : '{' ∈ Str.trim s
  · obtain ⟨before, v, htext, hbefore⟩ : ∃ before v,
  Str.trim s = before ++ '{' :: v ∧ '{' ∉ before := by
      obtain ⟨i, hi⟩ := Option.ne_none_iff_exists'.mp
        (mt (Str.find_eq_none_iff '{' (Str.trim s)).mp (not_not_intro hbrace))
      obtain ⟨u, v, htext, hu, -⟩ := (Str.find_eq_some_iff _ _ _).mp hi
      exact ⟨u, v, htext, hu⟩
    have htrim : Str.trim (before ++ '{' :: v) = before ++ '{' :: v := by
      rw [← htext, Str.trim_trim]
    rw [parse_of_tagged htext hbefore]
    constructor
    · intro h
      split at h
      · cases h
      rename_i hname
      split at h
      · cases h
      rename_i hclean
      split at h
      · cases h
      rename_i tags' htags
      obtain ⟨rfl, rfl⟩ := MetricSelector.mk.inj (Except.ok.inj h)
      obtain ⟨inner, rfl, hinner⟩ := (parseTags_eq_ok_iff htrim).mp htags
      obtain ⟨pairs, hlist, hnodup, hpairs⟩ := (parseInner_eq_ok_iff _ _).mp hinner
      refine ⟨pairs, ⟨by simpa using hname, Bool.eq_false_iff.mpr hclean, hnodup, .inr ?_⟩, hpairs⟩
      exact ⟨before, inner, htext, rfl, hlist⟩
    · rintro ⟨pairs, ⟨hne, hclean, hnodup, hbare | ⟨before', inner, htext', rfl, hlist⟩⟩, rfl⟩
      · rw [hbare.1] at hbrace
        exact absurd hbrace (not_mem_of_not_containsReserved hclean).1
      · have hsplit := congrArg (Str.splitOnce '{') (htext.symm.trans htext')
        rw [Str.splitOnce_append_cons _ _ _ hbefore,
          Str.splitOnce_append_cons _ _ _ (brace_not_mem_of_trim hclean)] at hsplit
        obtain ⟨rfl, hv⟩ := Prod.mk.inj hsplit
        obtain rfl := Option.some.inj hv
        have hinner := (parseInner_eq_ok_iff inner _).mpr ⟨pairs, hlist, hnodup, rfl⟩
        rw [parseTags_append, hinner]
        simp [hne, hclean]
  · rw [parse_of_bare hbrace]
    constructor
    · intro h
      split at h
      · cases h
      rename_i hne
      split at h
      · cases h
      split at h
      · cases h
      rename_i hclean
      obtain ⟨rfl, rfl⟩ := MetricSelector.mk.inj (Except.ok.inj h)
      exact ⟨[], ⟨by simpa using hne, Bool.eq_false_iff.mpr hclean, List.nodup_nil,
        .inl ⟨rfl, rfl⟩⟩, rfl⟩
    · rintro ⟨pairs, ⟨hne, hclean, hnodup, ⟨rfl, rfl⟩ | ⟨before, inner, htext, -⟩⟩, rfl⟩
      · have hclose := (not_mem_of_not_containsReserved hclean).2.1
        simp only at hne hclean hclose
        simp only [List.isEmpty_iff, hne, hclose, hclean, Bool.false_eq_true, if_false]
        rfl
      · exact absurd (by simp [htext]) hbrace

/-- The texts of the grammar are what the parser accepts, each accepted selector is read back from
its canonical form, and canonical forms are equal only for equal selectors. -/
theorem parse_grammar_and_roundTrip :
    (∀ s, (parse s).isOk = true ↔ ∃ name pairs, Denotes s name pairs) ∧
      (∀ s name pairs, Denotes s name pairs → parse s = .ok ⟨name, SortedMap.ofList pairs⟩) ∧
      (∀ s sel, parse s = .ok sel → parse (canonical sel) = .ok sel) ∧
      ∀ s s' sel sel', parse s = .ok sel → parse s' = .ok sel' →
        (canonical sel = canonical sel' ↔ sel.name = sel'.name ∧ sel.tags = sel'.tags) := by
  refine ⟨fun s => ⟨fun h => ?_, fun h => ?_⟩, fun s name pairs h => ?_,
    fun s sel h => parse_canonical_of_parse h, fun s s' sel sel' h h' =>
    ⟨fun heq => ?_, fun heq => ?_⟩⟩
  · cases hparse : parse s with
    | error e =>
        rw [hparse] at h
        cases h
    | ok sel =>
        obtain ⟨pairs, hdenotes, -⟩ := (parse_eq_ok_iff s sel).mp hparse
        exact ⟨sel.name, pairs, hdenotes⟩
  · obtain ⟨name, pairs, hdenotes⟩ := h
    rw [(parse_eq_ok_iff s ⟨name, SortedMap.ofList pairs⟩).mpr ⟨pairs, hdenotes, rfl⟩]
    rfl
  · exact (parse_eq_ok_iff s ⟨name, SortedMap.ofList pairs⟩).mpr ⟨pairs, h, rfl⟩
  · have hread := parse_canonical_of_parse h
    rw [heq, parse_canonical_of_parse h'] at hread
    obtain rfl := Except.ok.inj hread
    exact ⟨rfl, rfl⟩
  · obtain ⟨name, tags⟩ := sel
    obtain ⟨hname, htags⟩ := heq
    simp only at hname htags
    rw [hname, htags]

end K6Rs.MetricSelector
