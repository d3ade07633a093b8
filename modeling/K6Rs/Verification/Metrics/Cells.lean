import K6Rs.Model.Metrics
import K6Rs.Verification.Selector.RoundTrip

/-! The storage cells of the registry: the key each sample is stored under, and when
two samples share a key. A sample is stored under the canonical form of its last-wins
tag map, in whichever way its tags were supplied. -/

namespace K6Rs

open MetricSelector

/-! ## Samples -/

/-- How a sample is tagged: by nothing, by a list of pairs, or by a tag map. -/
inductive Tagging where
  | none
  | pairs (tags : List (Str × Str))
  | map (tags : TagMap)

namespace Tagging

/-- The key of the cell a sample of the metric `name` is added to. -/
def key (name : Str) : Tagging → Str
  | none => name
  | pairs tags => canonicalKey name (canonicalTagSuffix tags)
  | map tags => canonical ⟨name, tags⟩

/-- The tag map of a sample. -/
def tagMap : Tagging → TagMap
  | none => ∅
  | pairs tags => lastWins tags
  | map tags => tags

theorem key_eq (name : Str) (t : Tagging) : t.key name = canonical ⟨name, t.tagMap⟩ := by
  cases t with
  | none => rfl
  | map tags => rfl
  | pairs tags =>
      cases tags with
      | nil => rfl
      | cons a tags =>
          have hne : lastWins (a :: tags) ≠ ∅ := by
            rw [lastWins, ne_eq, SortedMap.ofList_eq_empty_iff]
            exact List.cons_ne_nil a tags
          rw [tagMap, canonical_eq, if_neg hne, tagBlock,
            lastWins, ← SortedMap.lastOfRuns_sortByKey]
          rfl

end Tagging

/-- The fast key of a list of tags is the canonical form of the name with the last value of each
tag, also when it is written into a used buffer. -/
theorem canonicalKey_eq_canonical (buf name : Str) (tags : List (Str × Str)) :
    canonicalKey name (canonicalTagSuffix tags) = canonical ⟨name, lastWins tags⟩ ∧
      writeCanonicalKey buf name (canonicalTagSuffix tags) = canonical ⟨name, lastWins tags⟩ := by
  have hkey : canonicalKey name (canonicalTagSuffix tags) = canonical ⟨name, lastWins tags⟩ :=
    Tagging.key_eq name (.pairs tags)
  refine ⟨hkey, ?_⟩
  rw [← hkey, canonicalKey, writeCanonicalKey]
  cases canonicalTagSuffix tags <;> simp

/-! ## Shared cells -/

/-- The parts between the commas of a tag block. A comma in a key or a value adds a
part, and nothing marks where a pair ends. -/
def fields (tags : TagMap) : List Str :=
  tags.entries.flatMap fun a => List.splitOn ',' (pairText a)

theorem fields_eq_splitOn {tags : TagMap} (h : tags ≠ ∅) :
    fields tags = List.splitOn ',' (tagBlock tags) := by
  rw [tagBlock,
    Str.splitOn_intercalate_eq_flatMap ',' _ (by simpa using (tags_ne_empty_iff _).mp h),
    List.flatMap_map, fields]

@[simp] theorem fields_empty : fields ∅ = [] := rfl

theorem fields_ne_nil {tags : TagMap} (h : tags ≠ ∅) : fields tags ≠ [] := by
  rw [fields_eq_splitOn h]
  exact List.splitOn_ne_nil ',' _

theorem canonical_ne_name {name : Str} {tags : TagMap} (h : tags ≠ ∅) :
    canonical ⟨name, tags⟩ ≠ name := by
  intro heq
  rw [canonical_eq, if_neg h] at heq
  exact List.cons_ne_nil _ _ (List.append_right_eq_self.mp heq)

/-- Samples of one metric share a cell exactly when their tag blocks fall into the same
parts at the commas. -/
theorem canonical_eq_iff (name : Str) (tags tags' : TagMap) :
    canonical ⟨name, tags⟩ = canonical ⟨name, tags'⟩ ↔ fields tags = fields tags' := by
  cases Decidable.em (tags = ∅) with
  | inl h =>
      subst h
      cases Decidable.em (tags' = ∅) with
      | inl h' => simp [h']
      | inr h' =>
          have hkey := (@canonical_ne_name name tags' h').symm
          have hfields := (fields_ne_nil h').symm
          have hbare : canonical ⟨name, ∅⟩ = name := rfl
          simp [hbare, hkey, hfields]
  | inr h =>
      cases Decidable.em (tags' = ∅) with
      | inl h' =>
          subst h'
          have hbare : canonical ⟨name, ∅⟩ = name := rfl
          simp [hbare, @canonical_ne_name name tags h, fields_ne_nil h]
      | inr h' =>
          rw [fields_eq_splitOn h, fields_eq_splitOn h', (Str.splitOn_injective ',').eq_iff,
            canonical_eq, canonical_eq, if_neg h, if_neg h']
          simp

/-- A tag without a comma and with no colon in its key. -/
def CleanTag (a : Str × Str) : Prop := ':' ∉ a.1 ∧ ',' ∉ a.1 ∧ ',' ∉ a.2

theorem fields_of_clean {tags : TagMap} (h : ∀ a ∈ tags.entries, CleanTag a) :
    fields tags = tags.entries.map pairText := by
  rw [fields, List.map_eq_flatMap]
  apply List.flatMap_congr
  intro a ha
  have hcomma : ',' ∉ pairText a := by simp [pairText, (h a ha).2.1, (h a ha).2.2]
  exact List.splitOn_eq_singleton hcomma

theorem pairText_injOn {a b : Str × Str} (ha : ':' ∉ a.1) (hb : ':' ∉ b.1)
    (h : pairText a = pairText b) : a = b := by
  have hsplit := congrArg (Str.splitOnce ':') h
  rw [pairText, pairText, Str.splitOnce_append_cons ':' _ _ ha,
    Str.splitOnce_append_cons ':' _ _ hb] at hsplit
  simpa [Prod.ext_iff] using hsplit

/-- Clean tag maps have cells of their own. -/
theorem eq_of_fields_eq {tags tags' : TagMap} (h : ∀ a ∈ tags.entries, CleanTag a)
    (h' : ∀ a ∈ tags'.entries, CleanTag a) (heq : fields tags = fields tags') : tags = tags' := by
  rw [fields_of_clean h, fields_of_clean h'] at heq
  apply SortedMap.ext_entries
  have hinj : ∀ a ∈ tags.entries, ∀ b ∈ tags'.entries, pairText a = pairText b → a = b :=
    fun a ha b hb => pairText_injOn (h a ha).1 (h' b hb).1
  generalize tags.entries = l at heq hinj
  generalize tags'.entries = l' at heq hinj
  induction l generalizing l' with
  | nil => exact (List.map_eq_nil_iff.mp heq.symm).symm
  | cons a l ih =>
      cases l' with
      | nil => cases heq
      | cons b l' =>
          obtain ⟨hab, hrest⟩ := List.cons.inj heq
          rw [hinj a (by simp) b (by simp) hab,
            ih l' hrest fun c hc d hd => hinj c (by simp [hc]) d (by simp [hd])]

end K6Rs
