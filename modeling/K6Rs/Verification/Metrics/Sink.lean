import K6Rs.Model.Sink
import K6Rs.Verification.Metrics.Cells

/-! The event of a sample carries its name and its tags exactly when the name has no opening brace
and the tags are clean, and then the outputs can take the key apart as well. -/

namespace K6Rs

open MetricSelector

/-! ## The pairs of a block -/

/-- The pair that a part of a block adds. -/
def partPair (part : Str) : Option (Str × Str) :=
  match Str.splitOnce ':' part with
  | (key, some value) => some (key, value)
  | (_, none) => none

theorem partPair_pairText {a : Str × Str} (h : ':' ∉ a.1) : partPair (pairText a) = some a := by
  simp [partPair, pairText, Str.splitOnce_append_cons ':' _ _ h]

theorem partPair_eq_some {part key value : Str} (h : partPair part = some (key, value)) :
    part = key ++ ':' :: value ∧ ':' ∉ key := by
  apply Str.splitOnce_eq_some_iff.mp
  rw [partPair] at h
  cases hsplit : Str.splitOnce ':' part with
  | mk k v =>
      rw [hsplit] at h
      cases v with
      | none => cases h
      | some v =>
          cases h
          rfl

theorem collectPairs_eq (body : Str) :
    collectPairs body = SortedMap.ofList ((List.splitOn ',' body).filterMap partPair) := by
  rw [collectPairs, SortedMap.ofList]
  generalize (∅ : TagMap) = tags
  induction List.splitOn ',' body generalizing tags with
  | nil => rfl
  | cons part parts ih =>
      rw [List.foldl_cons, ih, List.filterMap_cons, partPair]
      cases Str.splitOnce ':' part with
      | mk key value => cases value <;> rfl

/-- What is collected from the parts of a block is the tag map of the block exactly when its tags
are clean: no part of a block has a comma, and no key that is read has a colon. -/
theorem ofList_fields_eq_iff (tags : TagMap) :
    SortedMap.ofList ((fields tags).filterMap partPair) = tags ↔ ∀ a ∈ tags.entries,
    CleanTag a := by
  constructor
  · intro h a ha
    rw [← h] at ha
    obtain ⟨part, hpart, hpair⟩ := List.mem_filterMap.mp (SortedMap.mem_of_mem_ofList ha)
    obtain ⟨rfl, hcolon⟩ := partPair_eq_some hpair
    obtain ⟨b, -, hsplit⟩ := List.mem_flatMap.mp hpart
    have hcomma : ',' ∉ a.1 ++ ':' :: a.2 := Str.not_mem_of_mem_splitOn hsplit
    simp only [List.mem_append, List.mem_cons, not_or] at hcomma
    exact ⟨hcolon, hcomma.1, hcomma.2.2⟩
  · intro h
    have hpairs : (fields tags).filterMap partPair = tags.entries := by
      rw [fields_of_clean h, List.filterMap_map]
      conv_rhs => rw [← List.filterMap_some (l := tags.entries)]
      apply List.filterMap_congr
      intro a ha
      exact partPair_pairText (h a ha).1
    rw [hpairs, SortedMap.ofList_entries]

/-! ## The cuts -/

theorem mem_findByte {s : Str} {i : ℕ} (h : Str.findByte '{' s = some i) :
    ∃ u v, s = u ++ '{' :: v ∧ '{' ∉ u ∧ i = Str.utf8Len u := by
  rw [Str.findByte, Option.map_eq_some_iff] at h
  obtain ⟨j, hj, rfl⟩ := h
  obtain ⟨u, v, rfl, hu, rfl⟩ := (Str.find_eq_some_iff '{' s j).mp hj
  exact ⟨u, v, rfl, hu, by simp⟩

theorem byteSlice_name (name rest : Str) :
    Str.byteSlice (name ++ rest) 0 (Str.utf8Len name) = some name := by
  simpa [Str.utf8Len] using Str.byteSlice_append [] name rest

/-- The block between the brace that opens it and a last character of one byte. -/
theorem byteSlice_block (name block : Str) :
    Str.byteSlice (name ++ '{' :: (block ++ ['}'])) (Str.utf8Len name + 1)
      (Str.utf8Len (name ++ '{' :: (block ++ ['}'])) - 1) = some block := by
  have hslice := Str.byteSlice_append (name ++ ['{']) block ['}']
  have hbrace : Str.utf8Len ['{'] = 1 := by decide
  have hclose : Str.utf8Len ['}'] = 1 := by decide
  have hstart : Str.utf8Len (name ++ ['{']) = Str.utf8Len name + 1 := by
    rw [Str.utf8Len_append, hbrace]
  have hkey : name ++ '{' :: (block ++ ['}']) = name ++ ['{'] ++ block ++ ['}'] := by simp
  have hstop : Str.utf8Len (name ++ ['{'] ++ block ++ ['}']) - 1 =
      Str.utf8Len (name ++ ['{'] ++ block) := by
    rw [Str.utf8Len_append, hclose, Nat.add_sub_cancel]
  rw [hkey, hstop, ← hstart]
  exact hslice

/-- What is split off as the name has no opening brace. -/
theorem not_mem_of_splitCanonicalForSink {s name : Str} {tags : TagMap}
    (h : splitCanonicalForSink s = some (name, tags)) : '{' ∉ name := by
  unfold splitCanonicalForSink at h
  cases hfind : Str.findByte '{' s with
  | none =>
      rw [hfind] at h
      cases h
      exact (Str.find_eq_none_iff '{' s).mp (Option.map_eq_none_iff.mp hfind)
  | some i =>
      obtain ⟨u, v, rfl, hu, rfl⟩ := mem_findByte hfind
      simp only [hfind, byteSlice_name, Option.bind_eq_bind, Option.bind_some] at h
      split at h
      · cases h
        exact hu
      · obtain ⟨body, -, hbody⟩ := Option.bind_eq_some_iff.mp h
        cases hbody
        exact hu

/-- A tagged key whose name has no brace is split at the brace and at the commas of the block. -/
theorem splitCanonicalForSink_canonical {name : Str} (hname : '{' ∉ name) (tags : TagMap) :
    splitCanonicalForSink (canonical ⟨name, tags⟩) =
      some (name, SortedMap.ofList ((fields tags).filterMap partPair)) := by
  rw [canonical_eq]
  simp only
  split
  · rename_i h
    subst h
    have hfind : Str.findByte '{' name = none :=
      Option.map_eq_none_iff.mpr ((Str.find_eq_none_iff '{' name).mpr hname)
    rw [splitCanonicalForSink, hfind]
    rfl
  · rename_i h
    have hblock := byteSlice_block name (tagBlock tags)
    have hlength : ¬Str.utf8Len (name ++ '{' :: (tagBlock tags ++ ['}'])) - 1 ≤
        Str.utf8Len name + 1 := by
      have hpos := Str.utf8Len_pos (colon_mem_tagBlock tags h)
      have hbrace : Char.utf8Size '{' = 1 := by decide
      have hclose : Char.utf8Size '}' = 1 := by decide
      simp only [Str.utf8Len_append, Str.utf8Len, hbrace, hclose]
      omega
    rw [splitCanonicalForSink, Str.findByte_append_cons _ _ _ hname]
    simp only [byteSlice_name, Option.bind_eq_bind, Option.bind_some, if_neg hlength, hblock]
    rw [collectPairs_eq, fields_eq_splitOn h]
    rfl

/-- The outputs do not panic on a key whose name has no brace. -/
theorem parseMetricName_canonical {name : Str} (hname : '{' ∉ name) (tags : TagMap) :
    (parseMetricName (canonical ⟨name, tags⟩)).isSome = true := by
  unfold parseMetricName
  cases parse (canonical ⟨name, tags⟩) with
  | ok selector => rfl
  | error e =>
      rw [canonical_eq]
      by_cases h : tags = ∅
      · have hfind : Str.findByte '{' name = none :=
          Option.map_eq_none_iff.mpr ((Str.find_eq_none_iff '{' name).mpr hname)
        rw [if_pos h, hfind]
        rfl
      · rw [if_neg h, Str.findByte_append_cons _ _ _ hname]
        simp only [byteSlice_name, byteSlice_block]
        rfl

/-- A sample reaches the sink as it was recorded, and its key can be taken apart, exactly when its
name has no opening brace and its tags have no separators. -/
theorem emitToSink_exact_iff {F : Type} (name : Str) (t : Tagging) (kind : EventStream.MetricKind)
    (time : ℤ) (value : F) :
    (emitToSink kind (t.key name) time value = some ⟨name, kind, time, value, t.tagMap⟩ ∧
      (parseMetricName (t.key name)).isSome = true) ↔
      '{' ∉ name ∧ ∀ a ∈ t.tagMap.entries, CleanTag a := by
  rw [t.key_eq name]
  constructor
  · rintro ⟨hemit, -⟩
    obtain ⟨⟨n, tags⟩, hsplit, hevent⟩ := Option.bind_eq_some_iff.mp hemit
    cases hevent
    have hname := not_mem_of_splitCanonicalForSink hsplit
    rw [splitCanonicalForSink_canonical hname] at hsplit
    refine ⟨hname, (ofList_fields_eq_iff _).mp ?_⟩
    exact congrArg Prod.snd (Option.some.inj hsplit)
  · rintro ⟨hname, hclean⟩
    refine ⟨?_, parseMetricName_canonical hname _⟩
    rw [emitToSink, splitCanonicalForSink_canonical hname, (ofList_fields_eq_iff _).mpr hclean]
    rfl

/-- A name that ends in a brace and a letter of two bytes makes the splitter panic. -/
theorem not_emitToSink_exact_multibyte :
    ¬(emitToSink .counter (Tagging.none.key "a\x7bé".toList) 0 (1 : ℚ) =
        some ⟨"a\x7bé".toList, .counter, 0, 1, Tagging.none.tagMap⟩ ∧
      (parseMetricName (Tagging.none.key "a\x7bé".toList)).isSome = true) := by
  have hsplit : splitCanonicalForSink (Tagging.none.key "a\x7bé".toList) = none := by decide
  rintro ⟨h, -⟩
  rw [emitToSink, hsplit] at h
  cases h

end K6Rs
