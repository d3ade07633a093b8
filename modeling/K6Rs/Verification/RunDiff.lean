import K6Rs.Model.RunDiff

/-! The comparison is symmetric, finds nothing between a run and itself, and misses no metric, check
or group that one run lacks. -/

namespace K6Rs

open FloatOps

/-! ## The union of the keys -/

theorem mem_destutter'_ne {α : Type*} [DecidableEq α] (a b : α) (l : List α) :
    a ∈ l.destutter' (· ≠ ·) b ↔ a = b ∨ a ∈ l := by
  induction l generalizing b with
  | nil => simp
  | cons c l ih =>
      by_cases h : b = c
      · rw [List.destutter'_cons_neg l (not_not.mpr h), ih, h, List.mem_cons]
        tauto
      · rw [List.destutter'_cons_pos l h, List.mem_cons, ih, List.mem_cons]

theorem mem_destutter_ne {α : Type*} [DecidableEq α] (a : α) (l : List α) :
    a ∈ l.destutter (· ≠ ·) ↔ a ∈ l := by
  cases l with
  | nil => simp
  | cons b l => rw [List.destutter_cons', mem_destutter'_ne, List.mem_cons]

section

variable {ν : Type}

theorem mem_unionKeys (l r : SortedMap Str ν) (key : Str) :
    key ∈ unionKeys l r ↔ l.contains key = true ∨ r.contains key = true := by
  rw [unionKeys, mem_destutter_ne, List.mem_insertionSort, List.mem_append]
  simp [SortedMap.contains, SortedMap.find?, List.lookup_isSome_iff]

/-- Sorting forgets on which side a key stands. -/
theorem unionKeys_comm (l r : SortedMap Str ν) : unionKeys l r = unionKeys r l := by
  have h : (l.entries.map Prod.fst ++ r.entries.map Prod.fst).insertionSort (· ≤ ·) =
      (r.entries.map Prod.fst ++ l.entries.map Prod.fst).insertionSort (· ≤ ·) := by
    apply List.Perm.eq_of_sortedLE
    · exact List.sortedLE_insertionSort
    · exact List.sortedLE_insertionSort
    · exact (List.perm_insertionSort _ _).trans
        (List.perm_append_comm.trans (List.perm_insertionSort _ _).symm)
  rw [unionKeys, h, unionKeys]

end

/-! ## Tolerances -/

def DiffFinding.key (finding : DiffFinding) : FindingKind × Str := (finding.kind, finding.selector)

/-- A tolerance that is not a number is never breached. -/
def Tolerance.NonNegative {F : Type} [FloatOps F] : Tolerance F → Prop
  | .exact => True
  | .relative eps => lt eps zero = false
  | .ignore => True

def Expectations.NonNegative {F : Type} [FloatOps F] [FloatParse F] (exp : Expectations F) : Prop :=
  ∀ selector, (exp.toleranceFor selector).count.NonNegative ∧
    (exp.toleranceFor selector).rate.NonNegative ∧ (exp.toleranceFor selector).trend.NonNegative

section

variable (text : DetailFormat Double)

theorem relativeDrift_comm (a b : Double) : relativeDrift a b = relativeDrift b a := by
  rw [relativeDrift, relativeDrift, Double.maxNum_abs_comm, Double.abs_sub_comm]

/-- Whether a tolerance is breached does not depend on the order; only the detail does. -/
theorem checkTolerance_isSome_comm (field : Str) (a b : Double) (tol : Tolerance Double) :
    (checkTolerance text field a b tol).isSome = (checkTolerance text field b a tol).isSome := by
  cases tol with
  | exact =>
      simp only [checkTolerance, Double.abs_sub_comm a b]
      split <;> rfl
  | relative eps =>
      simp only [checkTolerance, relativeDrift_comm a b]
      split <;> rfl
  | ignore => rfl

theorem relativeDrift_self (a : Double) :
    relativeDrift a a = .nan ∨ relativeDrift a a = zero := by
  have hmag : maxNum (abs a) (abs a) = abs a := by simp [maxNum]
  rw [relativeDrift, hmag]
  split
  · exact .inr rfl
  · rcases Double.abs_sub_self a with h | h
    · rw [h]
      exact .inl rfl
    · rw [h]
      exact Double.div_zero_abs a

theorem checkTolerance_self (field : Str) (a : Double) {tol : Tolerance Double}
    (h : tol.NonNegative) : checkTolerance text field a a tol = none := by
  cases tol with
  | exact =>
      have hlt : lt epsilon (abs (sub a a)) = false := by
        rcases Double.abs_sub_self a with h | h
        · rw [h, Double.lt_nan]
        · rw [h]
          decide +kernel
      rw [checkTolerance, hlt]
      rfl
  | relative eps =>
      have hlt : lt eps (relativeDrift a a) = false := by
        rcases relativeDrift_self a with hd | hd
        · rw [hd, Double.lt_nan]
        · rw [hd]
          exact h
      simp only [checkTolerance, hlt, Bool.false_eq_true, if_false]
  | ignore => rfl

theorem map_key_detail_comm {kind : FindingKind} {selector : Str} {a b : Option Str}
    (h : a.isSome = b.isSome) :
    (a.toList.map fun detail => DiffFinding.mk kind selector detail).map DiffFinding.key =
      (b.toList.map fun detail => DiffFinding.mk kind selector detail).map DiffFinding.key := by
  cases a with
  | none =>
      cases b with
      | none => rfl
      | some _ => cases h
  | some _ =>
      cases b with
      | none => cases h
      | some _ => rfl

theorem driftFinding_comm (selector field : Str) (a b : Double) (tol : Tolerance Double) :
    (driftFinding text selector field a b tol).map DiffFinding.key =
      (driftFinding text selector field b a tol).map DiffFinding.key :=
  map_key_detail_comm (checkTolerance_isSome_comm text field a b tol)

theorem driftFinding_self (selector field : Str) (a : Double) {tol : Tolerance Double}
    (h : tol.NonNegative) : driftFinding text selector field a a tol = [] := by
  rw [driftFinding, checkTolerance_self text field a h]
  rfl

theorem optionalDrift_comm (selector field : Str) (tol : Tolerance Double) (a b : Option Double) :
    (optionalDrift text selector field tol a b).map DiffFinding.key =
      (optionalDrift text selector field tol b a).map DiffFinding.key := by
  cases a with
  | none => cases b <;> rfl
  | some a =>
      cases b with
      | none => rfl
      | some b => exact driftFinding_comm text selector field a b tol

theorem optionalDrift_self (selector field : Str) {tol : Tolerance Double} (h : tol.NonNegative)
    (a : Option Double) : optionalDrift text selector field tol a a = [] := by
  cases a with
  | none => rfl
  | some a => exact driftFinding_self text selector field a h

/-! ## One entry -/

theorem diffMetricKinds_comm (sel : Str) (tol : ToleranceProfile Double)
    (l r : CanonicalMetricKind Double) :
    (diffMetricKinds text sel tol l r).map DiffFinding.key =
      (diffMetricKinds text sel tol r l).map DiffFinding.key := by
  cases l with
  | counter lc lr =>
      cases r with
      | counter rc rr =>
          simp only [diffMetricKinds, countersDiff, List.map_append,
            driftFinding_comm text sel _ lc rc, driftFinding_comm text sel _ lr rr]
      | gauge _ _ _ => rfl
      | rate _ _ _ => rfl
      | trend _ => rfl
  | trend lt =>
      cases r with
      | trend rt =>
          simp only [diffMetricKinds, trendsDiff, List.map_append, List.flatMap_cons,
            List.flatMap_nil, List.map_nil, driftFinding_comm text sel _ lt.avg,
            driftFinding_comm text sel _ lt.med, driftFinding_comm text sel _ lt.p90,
            driftFinding_comm text sel _ lt.p95,
            optionalDrift_comm text sel _ _ (lt.count.map ofNat),
            optionalDrift_comm text sel _ _ lt.p99]
      | counter _ _ => rfl
      | gauge _ _ _ => rfl
      | rate _ _ _ => rfl
  | gauge _ _ _ => cases r <;> rfl
  | rate _ _ _ => cases r <;> rfl

theorem diffMetricKinds_self (sel : Str) {exp : Expectations Double} (h : exp.NonNegative)
    (k : CanonicalMetricKind Double) :
    diffMetricKinds text sel (exp.toleranceFor sel) k k = [] := by
  obtain ⟨hcount, hrate, htrend⟩ := h sel
  cases k with
  | counter count rate =>
      simp [diffMetricKinds, countersDiff, driftFinding_self text sel _ _ hcount,
        driftFinding_self text sel _ _ hrate]
  | trend t =>
      simp [diffMetricKinds, trendsDiff, driftFinding_self text sel _ _ htrend,
        optionalDrift_self text sel _ hcount, optionalDrift_self text sel _ htrend]
  | gauge _ _ _ => rfl
  | rate _ _ _ => rfl

end

theorem map_key_ite_comm {p q : Prop} [Decidable p] [Decidable q] (h : p ↔ q) {kind : FindingKind}
    {selector a b : Str} :
    (if p then [DiffFinding.mk kind selector a] else []).map DiffFinding.key =
      (if q then [DiffFinding.mk kind selector b] else []).map DiffFinding.key := by
  by_cases hp : p
  · rw [if_pos hp, if_pos (h.mp hp)]
    rfl
  · rw [if_neg hp, if_neg (mt h.mpr hp)]

theorem diffIds_comm (kind : FindingKind) (path l r : Str) :
    (diffIds kind path l r).map DiffFinding.key = (diffIds kind path r l).map DiffFinding.key := by
  apply map_key_ite_comm
  rw [Bool.and_comm (!l.isEmpty), bne_comm]

theorem diffIds_self (kind : FindingKind) (path id : Str) : diffIds kind path id id = [] := by
  simp [diffIds]

theorem diffChecks_comm (path : Str) (l r : CanonicalCheck) :
    (diffChecks path l r).map DiffFinding.key = (diffChecks path r l).map DiffFinding.key := by
  rw [diffChecks, diffChecks, List.map_append, List.map_append, diffIds_comm]
  congr 1
  apply map_key_ite_comm
  rw [bne_comm, bne_comm (a := l.fails)]

theorem diffChecks_self (path : Str) (check : CanonicalCheck) :
    diffChecks path check check = [] := by
  simp [diffChecks, diffIds_self]

theorem diffMetricDefs_comm {F : Type} (text : DetailFormat F) (name : Str)
    (l r : CanonicalMetricDef) :
    (diffMetricDefs text name l r).map DiffFinding.key =
      (diffMetricDefs text name r l).map DiffFinding.key := by
  rw [diffMetricDefs, diffMetricDefs, List.map_append, List.map_append]
  congr 1
  · exact map_key_ite_comm ne_comm
  · exact map_key_ite_comm ne_comm

theorem diffMetricDefs_self {F : Type} (text : DetailFormat F) (name : Str)
    (d : CanonicalMetricDef) : diffMetricDefs text name d d = [] := by
  simp [diffMetricDefs]

/-! ## The walks -/

section

variable {ν : Type} {F : Type}

theorem diffPresent_comm (missing : DiffFinding) {both : ν → ν → List DiffFinding}
    (h : ∀ l r, (both l r).map DiffFinding.key = (both r l).map DiffFinding.key)
    (l r : Option ν) :
    (diffPresent missing both l r).map DiffFinding.key =
      (diffPresent missing both r l).map DiffFinding.key := by
  cases l with
  | none => cases r <;> rfl
  | some l =>
      cases r with
      | none => rfl
      | some r => exact h l r

theorem diffUnion_comm (exp : Expectations F) (l r : SortedMap Str ν)
    {entry : Str → Option ν → Option ν → List DiffFinding}
    (h : ∀ key x y, (entry key x y).map DiffFinding.key = (entry key y x).map DiffFinding.key) :
    (diffUnion exp l r entry).map DiffFinding.key =
      (diffUnion exp r l entry).map DiffFinding.key := by
  rw [diffUnion, diffUnion, unionKeys_comm l r, List.map_flatMap, List.map_flatMap]
  congr 1
  funext key
  split
  · rfl
  · exact h key _ _

theorem diffUnion_self (exp : Expectations F) (m : SortedMap Str ν)
    {entry : Str → Option ν → Option ν → List DiffFinding}
    (h : ∀ key v, entry key (some v) (some v) = []) : diffUnion exp m m entry = [] := by
  rw [diffUnion, List.flatMap_eq_nil_iff]
  intro key hkey
  split
  · rfl
  · rw [mem_unionKeys, or_self, SortedMap.contains] at hkey
    obtain ⟨v, hv⟩ := Option.isSome_iff_exists.mp hkey
    rw [hv]
    exact h key v

/-- A key that only one side has is reported, unless its drift is known. -/
theorem exists_missing (exp : Expectations F) (l r : SortedMap Str ν) {key : Str}
    (hkey : l.contains key ≠ r.contains key) (hknown : exp.isKnownDrift key = false)
    (missing : Str → DiffFinding) (both : Str → ν → ν → List DiffFinding) :
    missing key ∈ diffUnion exp l r fun key => diffPresent (missing key) (both key) := by
  rw [diffUnion, List.mem_flatMap]
  refine ⟨key, ?_, ?_⟩
  · rw [mem_unionKeys]
    by_contra hnot
    simp only [not_or, Bool.not_eq_true] at hnot
    exact hkey (hnot.1.trans hnot.2.symm)
  · rw [if_neg (by simp [hknown])]
    unfold SortedMap.contains at hkey
    cases hl : l.find? key with
    | none =>
        cases hr : r.find? key with
        | none => simp [hl, hr] at hkey
        | some v => exact List.mem_singleton_self _
    | some v =>
        cases hr : r.find? key with
        | none => exact List.mem_singleton_self _
        | some w => simp [hl, hr] at hkey

end

section

variable (text : DetailFormat Double) (exp : Expectations Double)

theorem diffSampleCounts_comm (name : Str) (l r : Option ℕ) :
    (diffSampleCounts text exp name l r).map DiffFinding.key =
      (diffSampleCounts text exp name r l).map DiffFinding.key :=
  map_key_detail_comm (checkTolerance_isSome_comm text _ _ _ _)

theorem diffStreams_comm (l r : Option CanonicalEventStream) :
    (diffStreams text exp l r).map DiffFinding.key =
      (diffStreams text exp r l).map DiffFinding.key := by
  cases l with
  | none => cases r <;> rfl
  | some l =>
      cases r with
      | none => rfl
      | some r =>
          rw [diffStreams, diffStreams, diffEventStreams, diffEventStreams, List.map_append,
            List.map_append, diffUnion_comm exp l.metricDefs, diffUnion_comm exp l.sampleCounts]
          · exact diffSampleCounts_comm text exp
          · intro name
            exact diffPresent_comm _ (diffMetricDefs_comm text name)

theorem diff_comm (l r : CanonicalRun Double) :
    (diff text l r exp).map DiffFinding.key = (diff text r l exp).map DiffFinding.key := by
  simp only [diff, List.map_append]
  refine congrArg₂ _ (congrArg₂ _ (congrArg₂ _ (congrArg₂ _ ?_ ?_) ?_) ?_) ?_
  · exact map_key_ite_comm ne_comm
  · apply diffUnion_comm
    intro sel
    exact diffPresent_comm _ (diffMetricKinds_comm text sel _)
  · apply diffUnion_comm
    intro path
    exact diffPresent_comm _ (diffChecks_comm path)
  · exact diffStreams_comm text exp _ _
  · apply diffUnion_comm
    intro path
    apply diffPresent_comm
    intro l r
    exact diffIds_comm _ path l.id r.id

variable {exp}

theorem diffStreams_self (h : exp.NonNegative) (stream : Option CanonicalEventStream) :
    diffStreams text exp stream stream = [] := by
  cases stream with
  | none => rfl
  | some stream =>
      rw [diffStreams, diffEventStreams, diffUnion_self exp stream.metricDefs,
        diffUnion_self exp stream.sampleCounts]
      · rfl
      · intro name n
        rw [diffSampleCounts, checkTolerance_self text _ _ (h name).1]
        rfl
      · intro name d
        exact diffMetricDefs_self text name d

theorem diff_self (h : exp.NonNegative) (run : CanonicalRun Double) :
    diff text run run exp = [] := by
  rw [diff, if_neg (not_not.mpr rfl), diffUnion_self exp run.metrics, diffUnion_self exp run.checks,
    diffUnion_self exp run.groups, diffStreams_self text h]
  · rfl
  · intro path group
    exact diffIds_self _ path group.id
  · exact diffChecks_self
  · intro sel k
    exact diffMetricKinds_self text sel h k

end

/-- Two runs compare alike in both orders, a run differs in nothing from itself, and what only one
run has is found. -/
theorem diff_symmetric (text : DetailFormat Double) (l r : CanonicalRun Double)
    (exp : Expectations Double) (h : exp.NonNegative) :
    (diff text l r exp).map DiffFinding.key = (diff text r l exp).map DiffFinding.key ∧
      diff text l l exp = [] ∧
      (∀ sel, l.metrics.contains sel ≠ r.metrics.contains sel → exp.isKnownDrift sel = false →
        (.missingMetric, sel) ∈ (diff text l r exp).map DiffFinding.key) ∧
      (∀ path, l.checks.contains path ≠ r.checks.contains path → exp.isKnownDrift path = false →
        (.missingCheck, path) ∈ (diff text l r exp).map DiffFinding.key) ∧
      ∀ path, l.groups.contains path ≠ r.groups.contains path → exp.isKnownDrift path = false →
        (.missingGroup, path) ∈ (diff text l r exp).map DiffFinding.key := by
  refine ⟨diff_comm text exp l r, diff_self text h l, ?_, ?_, ?_⟩
  · intro sel hsel hknown
    have hmem := exists_missing exp l.metrics r.metrics hsel hknown
      (fun sel => ⟨.missingMetric, sel, "present on only one side".toList⟩)
      fun sel => diffMetricKinds text sel (exp.toleranceFor sel)
    have hfound : DiffFinding.mk .missingMetric sel "present on only one side".toList ∈
        diff text l r exp := by
      simp only [diff, List.mem_append]
      exact .inl (.inl (.inl (.inr hmem)))
    exact List.mem_map.mpr ⟨_, hfound, rfl⟩
  · intro path hpath hknown
    have hmem := exists_missing exp l.checks r.checks hpath hknown
      (fun path => ⟨.missingCheck, path, "check present on only one side".toList⟩) diffChecks
    have hfound : DiffFinding.mk .missingCheck path "check present on only one side".toList ∈
        diff text l r exp := by
      simp only [diff, List.mem_append]
      exact .inl (.inl (.inr hmem))
    exact List.mem_map.mpr ⟨_, hfound, rfl⟩
  · intro path hpath hknown
    have hmem := exists_missing exp l.groups r.groups hpath hknown
      (fun path => ⟨.missingGroup, path, "group present on only one side".toList⟩)
      fun path l r => diffIds .groupIdMismatch path l.id r.id
    have hfound : DiffFinding.mk .missingGroup path "group present on only one side".toList ∈
        diff text l r exp := by
      simp only [diff, List.mem_append]
      exact .inr hmem
    exact List.mem_map.mpr ⟨_, hfound, rfl⟩

theorem diff_symmetric_missing_metric :
    let text : DetailFormat Double := ⟨fun _ => [], fun _ _ => [], id⟩
    let l : CanonicalRun Double :=
      ⟨(∅ : SortedMap Str _).insert "http_reqs".toList (.counter (ofNat 3) (ofNat 1)), 0, ∅, ∅,
        none⟩
    let r : CanonicalRun Double := ⟨∅, 0, ∅, ∅, none⟩
    let exp : Expectations Double := ⟨.exact, .relative (div (ofNat 1) (ofNat 20)), ∅, ∅⟩
    (.missingMetric, "http_reqs".toList) ∈ (diff text l r exp).map DiffFinding.key := by
  intro text l r exp
  have h : exp.NonNegative := by
    have heps : lt (div (ofNat 1) (ofNat 20)) (zero : Double) = false := by decide +kernel
    intro selector
    exact ⟨trivial, heps, heps⟩
  exact (diff_symmetric text l r exp h).2.2.1 _ (by decide) rfl

end K6Rs
