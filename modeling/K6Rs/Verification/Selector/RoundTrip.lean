import K6Rs.Model.Selector

/-! What the selector parser accepts, and the round trip through the canonical form.
The parser returns well-formed selectors only, and every well-formed selector is read
back from its canonical form. -/

namespace K6Rs.MetricSelector

/-! ## Well-formed selectors -/

/-- A key and a value that the tag grammar can express. -/
structure WellFormedTag (a : Str × Str) : Prop where
  key_ne_nil : a.1 ≠ []
  key_trimmed : Str.trim a.1 = a.1
  key_clean : containsReserved a.1 = false
  value_trimmed : Str.trim a.2 = a.2
  value_clean : containsReservedValue a.2 = false

structure WellFormed (sel : MetricSelector) : Prop where
  name_ne_nil : sel.name ≠ []
  name_trimmed : Str.trim sel.name = sel.name
  name_clean : containsReserved sel.name = false
  tags : ∀ a ∈ sel.tags.entries, WellFormedTag a

theorem not_mem_of_not_containsReserved {s : Str} (h : containsReserved s = false) :
    '{' ∉ s ∧ '}' ∉ s ∧ ':' ∉ s ∧ ',' ∉ s := by
  rw [containsReserved, List.any_eq_false] at h
  refine ⟨?_, ?_, ?_, ?_⟩ <;>
  · intro hmem
    exact h _ hmem (by decide)

theorem containsReservedValue_eq_false_iff (s : Str) :
    containsReservedValue s = false ↔ ',' ∉ s := by
  rw [containsReservedValue, List.any_eq_false]
  refine ⟨fun h hmem => h _ hmem (by decide), fun h c hc heq => h ?_⟩
  rwa [← beq_iff_eq.mp heq]

/-! ## What the parser returns -/

/-- One pair that is accepted is well formed, and is inserted before the others. -/
theorem parsePairs_cons_eq_ok {pair : Str} {rest : List Str} {tags tags' : TagMap}
    (h : parsePairs (pair :: rest) tags = .ok tags') :
    ∃ key value, WellFormedTag (key, value) ∧ tags.contains key = false ∧
      parsePairs rest (tags.insert key value) = .ok tags' := by
  simp only [parsePairs] at h
  split at h
  · cases h
  · split at h
    · cases h
    · rename_i keyRaw valueRaw _
      split at h
      · cases h
      · rename_i hkey
        split at h
        · cases h
        · rename_i hclean
          split at h
          · cases h
          · rename_i hnew
            obtain ⟨hk, hv⟩ := Bool.or_eq_false_iff.mp (Bool.eq_false_iff.mpr hclean)
            refine ⟨Str.trim keyRaw, Str.trim valueRaw, ⟨?_, by simp, hk, by simp, hv⟩,
              Bool.eq_false_iff.mpr hnew, h⟩
            simpa using hkey

theorem wellFormedTag_of_parsePairs {pairs : List Str} {tags tags' : TagMap}
    (h : parsePairs pairs tags = .ok tags') (htags : ∀ a ∈ tags.entries, WellFormedTag a) :
    ∀ a ∈ tags'.entries, WellFormedTag a := by
  induction pairs generalizing tags with
  | nil =>
      simp only [parsePairs, Except.ok.injEq] at h
      rwa [← h]
  | cons pair rest ih =>
      obtain ⟨key, value, hnew, -, hrest⟩ := parsePairs_cons_eq_ok h
      apply ih hrest
      intro a ha
      rcases SortedMap.mem_insertList ha with rfl | ha
      · exact hnew
      · exact htags a ha

/-- The tag block is either empty or a list of pairs. -/
theorem parseTags_eq_ok {s : Str} {i : ℕ} {tags : TagMap} (h : parseTags s i = .ok tags) :
    tags = ∅ ∨ ∃ inner, parsePairs (List.splitOn ',' inner) ∅ = .ok tags := by
  rw [parseTags] at h
  split at h
  · cases h
  · split at h
    · cases h
    · split at h
      · cases h
      · simp only at h
        split at h
        · exact .inl (Except.ok.inj h).symm
        · exact .inr ⟨_, h⟩

/-- The two forms of an accepted selector, without and with a tag block. -/
theorem parse_eq_ok {s : Str} {sel : MetricSelector} (h : parse s = .ok sel) :
    sel.name ≠ [] ∧ containsReserved sel.name = false ∧
      ((Str.find '{' (Str.trim s) = none ∧ sel = ⟨Str.trim s, ∅⟩) ∨
        ∃ i, Str.find '{' (Str.trim s) = some i ∧
          sel.name = Str.trim ((Str.trim s).take i) ∧
          parseTags (Str.trim s) i = .ok sel.tags) := by
  simp only [parse] at h
  split at h
  · cases h
  · rename_i hne
    split at h
    · rename_i hfind
      split at h
      · cases h
      · split at h
        · cases h
        · rename_i hclean
          obtain rfl := Except.ok.inj h
          exact ⟨by simpa using hne, Bool.eq_false_iff.mpr hclean, .inl ⟨hfind, rfl⟩⟩
    · rename_i i hfind
      split at h
      · cases h
      · rename_i hname
        split at h
        · cases h
        · rename_i hclean
          split at h
          · cases h
          · rename_i tags htags
            obtain rfl := Except.ok.inj h
            exact ⟨by simpa using hname, Bool.eq_false_iff.mpr hclean,
              .inr ⟨i, hfind, rfl, htags⟩⟩

theorem wellFormed_of_parse {s : Str} {sel : MetricSelector} (h : parse s = .ok sel) :
    WellFormed sel := by
  obtain ⟨hne, hclean, ⟨-, rfl⟩ | ⟨i, -, hname, htags⟩⟩ := parse_eq_ok h
  · exact ⟨hne, Str.trim_trim s, hclean, by simp⟩
  · refine ⟨hne, by rw [hname, Str.trim_trim], hclean, ?_⟩
    rcases parseTags_eq_ok htags with hempty | ⟨inner, hpairs⟩
    · simp [hempty]
    · exact wellFormedTag_of_parsePairs hpairs (by simp)

/-- The name of an accepted selector is the text before its tag block. -/
theorem name_of_parse {s : Str} {sel : MetricSelector} (h : parse s = .ok sel) :
    sel.name = Str.trim ((Str.trim s).takeWhile (· ≠ '{')) := by
  obtain ⟨-, -, ⟨hfind, rfl⟩ | ⟨i, hfind, hname, -⟩⟩ := parse_eq_ok h
  · rw [Str.takeWhile_of_find_none hfind, Str.trim_trim]
  · rw [hname, Str.take_find hfind]

/-! ## Reading back the canonical form -/

theorem pairText_trimmed {a : Str × Str} (h : WellFormedTag a) :
    Str.trim (pairText a) = pairText a := by
  have hcolon : Str.trim (':' :: a.2) = ':' :: a.2 := by
    cases hv : a.2 with
    | nil => decide
    | cons c v =>
        apply @Str.trim_append_of_trimmed [':'] (c :: v) (by decide) (by simp) ?_ (by simp)
        rw [← hv]
        exact h.value_trimmed
  exact Str.trim_append_of_trimmed h.key_trimmed h.key_ne_nil hcolon (by simp)

theorem comma_not_mem_pairText {a : Str × Str} (h : WellFormedTag a) : ',' ∉ pairText a := by
  have hkey := (not_mem_of_not_containsReserved h.key_clean).2.2.2
  have hvalue := (containsReservedValue_eq_false_iff a.2).mp h.value_clean
  simp [pairText, hkey, hvalue]

/-- Inserting after all other keys appends. -/
private theorem insertList_append_of_lt (k v : Str) (l : List (Str × Str))
    (h : ∀ a ∈ l, a.1 < k) : SortedMap.insertList k v l = l ++ [(k, v)] := by
  induction l with
  | nil => rfl
  | cons a l ih =>
      have ha : a.1 < k := h a (by simp)
      rw [SortedMap.insertList, if_neg ha.not_gt, if_neg ha.ne', ih fun b hb => h b (by simp [hb])]
      rfl

/-- The pairs of a sorted map are read back one by one. -/
theorem parsePairs_pairText (todo : List (Str × Str)) (tags : TagMap)
    (hsorted : (tags.entries ++ todo).Pairwise fun a b => a.1 < b.1)
    (hwf : ∀ a ∈ todo, WellFormedTag a) :
    ∃ tags', parsePairs (todo.map pairText) tags = .ok tags' ∧
      tags'.entries = tags.entries ++ todo := by
  induction todo generalizing tags with
  | nil => exact ⟨tags, rfl, by simp⟩
  | cons a todo ih =>
      have ha := hwf a (by simp)
      have hbefore : ∀ b ∈ tags.entries, b.1 < a.1 := fun b hb =>
        (List.pairwise_append.mp hsorted).2.2 b hb a (by simp)
      have hinsert : (tags.insert a.1 a.2).entries = tags.entries ++ [a] :=
        insertList_append_of_lt a.1 a.2 tags.entries hbefore
      have hnew : tags.contains a.1 = false := by
        rw [SortedMap.contains, Option.isSome_eq_false_iff, Option.isNone_iff_eq_none,
          Option.eq_none_iff_forall_not_mem]
        intro v hv
        exact (hbefore (a.1, v) ((tags.find?_eq_some_iff a.1 v).mp hv)).ne rfl
      obtain ⟨tags', hrest, hentries⟩ := ih (tags.insert a.1 a.2)
        (by rw [hinsert]; simpa using hsorted) fun b hb => hwf b (by simp [hb])
      refine ⟨tags', ?_, by rw [hentries, hinsert]; simp⟩
      have hcolon := (not_mem_of_not_containsReserved ha.key_clean).2.2.1
      rw [List.map_cons, parsePairs]
      simp only [pairText_trimmed ha]
      rw [pairText, Str.splitOnce_append_cons ':' a.1 a.2 hcolon]
      simp [ha.key_trimmed, ha.value_trimmed, ha.key_ne_nil, ha.key_clean, ha.value_clean, hnew,
        hrest]

/-- The tag block of the canonical form. -/
def tagBlock (tags : TagMap) : Str := [','].intercalate (tags.entries.map pairText)

theorem canonical_eq (sel : MetricSelector) : canonical sel =
    if sel.tags = ∅ then sel.name else sel.name ++ '{' :: (tagBlock sel.tags ++ ['}']) := by
  simp only [canonical, SortedMap.isEmpty_iff, tagBlock]

theorem tags_ne_empty_iff (tags : TagMap) : tags ≠ ∅ ↔ tags.entries ≠ [] := by
  rw [ne_eq, ← SortedMap.isEmpty_iff, SortedMap.isEmpty, List.isEmpty_iff]

theorem splitOn_tagBlock (tags : TagMap) (h : tags ≠ ∅)
    (hwf : ∀ a ∈ tags.entries, WellFormedTag a) :
    List.splitOn ',' (tagBlock tags) = tags.entries.map pairText := by
  apply List.splitOn_intercalate
  · intro l hl
    obtain ⟨a, ha, rfl⟩ := List.mem_map.mp hl
    exact comma_not_mem_pairText (hwf a ha)
  · simpa using (tags_ne_empty_iff tags).mp h

theorem colon_mem_tagBlock (tags : TagMap) (h : tags ≠ ∅) : ':' ∈ tagBlock tags := by
  cases he : tags.entries with
  | nil => exact ((tags_ne_empty_iff tags).mp h he).elim
  | cons a l => cases l <;> simp [tagBlock, he, List.intercalate, pairText]

/-- What the parser makes of the text between the braces. -/
def parseInner (inner : Str) : Except SelectorParseError TagMap :=
  if (Str.trim inner).isEmpty then .ok ∅ else parsePairs (List.splitOn ',' inner) ∅

/-- A block that closes with the last character. -/
theorem parseTags_append (before inner : Str) :
    parseTags (before ++ '{' :: (inner ++ ['}'])) before.length = parseInner inner := by
  have hlast : before ++ '{' :: (inner ++ ['}']) = (before ++ '{' :: inner) ++ '}' :: [] := by simp
  have hclose := Str.rfind_append_cons '}' (before ++ '{' :: inner) [] (by simp)
  rw [← hlast] at hclose
  have hinner : Str.slice (before ++ '{' :: (inner ++ ['}'])) (before.length + 1)
      (before ++ '{' :: inner).length = inner := by
    rw [hlast, Str.slice, List.take_left]
    simp [List.drop_append]
  have hdrop : (before ++ '{' :: (inner ++ ['}'])).drop
      ((before ++ '{' :: inner).length + 1) = [] := by
    rw [List.drop_eq_nil_iff]
    simp only [List.length_append, List.length_cons, List.length_nil]
    omega
  rw [parseTags]
  simp only [hclose, hinner, hdrop, parseInner]
  simp [Str.trim, Str.trimStart, Str.trimEnd]

theorem parseTags_canonical (name : Str) (tags : TagMap) (h : tags ≠ ∅)
    (hwf : ∀ a ∈ tags.entries, WellFormedTag a) :
    parseTags (name ++ '{' :: (tagBlock tags ++ ['}'])) name.length = .ok tags := by
  have hnonempty : (Str.trim (tagBlock tags)).isEmpty = false := by
    have hmem := Str.mem_trim_of_mem (colon_mem_tagBlock tags h) (by decide)
    cases ht : Str.trim (tagBlock tags) with
    | nil => simp [ht] at hmem
    | cons c s => rfl
  obtain ⟨tags', hpairs, hentries⟩ := parsePairs_pairText tags.entries ∅
    (by simpa using tags.sorted) hwf
  have htags : tags' = tags := SortedMap.ext_entries (by simpa using hentries)
  rw [parseTags_append, parseInner, hnonempty, splitOn_tagBlock tags h hwf, hpairs, htags]
  rfl

theorem parse_canonical {sel : MetricSelector} (h : WellFormed sel) :
    parse (canonical sel) = .ok sel := by
  obtain ⟨name, tags⟩ := sel
  obtain ⟨hopen, hclose, -, -⟩ := not_mem_of_not_containsReserved h.name_clean
  rw [canonical_eq]
  cases Decidable.em (tags = ∅) with
  | inl hempty =>
      subst hempty
      simp only [ite_true, parse]
      simp only at hopen hclose
      simp [h.name_trimmed, h.name_ne_nil, h.name_clean, (Str.find_eq_none_iff '{' name).mpr hopen,
        hclose]
  | inr htags =>
      have htrim : Str.trim (name ++ '{' :: (tagBlock tags ++ ['}'])) =
          name ++ '{' :: (tagBlock tags ++ ['}']) := by
        apply Str.trim_append_of_trimmed h.name_trimmed h.name_ne_nil ?_ (by simp)
        exact Str.trim_append_singleton ('{' :: tagBlock tags) '}' (by decide)
      simp only [htags, ite_false, parse, htrim]
      simp [Str.find_append_cons '{' name _ hopen, h.name_trimmed, h.name_ne_nil, h.name_clean,
        parseTags_canonical name tags htags h.tags]

/-- Whatever the parser accepts is read back from its canonical form. -/
theorem parse_canonical_of_parse {s : Str} {sel : MetricSelector} (h : parse s = .ok sel) :
    parse (canonical sel) = .ok sel :=
  parse_canonical (wellFormed_of_parse h)

end K6Rs.MetricSelector
