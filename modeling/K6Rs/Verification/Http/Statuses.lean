import K6Rs.Library.Except
import K6Rs.Model.ResponseCallback

/-! # Expected statuses

The engine reads the bounds of a range as 16-bit numbers and leaves out the ranges it cannot
read. -/

namespace K6Rs

/-- A status matches an argument: it is the integer, or lies in the range. -/
def StatusArg.Matches (status : ℕ) : StatusArg → Prop
  | .number (.integer n) => (status : ℤ) = n
  | .object (.integer min) (.integer max) => min ≤ status ∧ (status : ℤ) ≤ max
  | _ => False

/-- The bounds of an argument are 16-bit numbers. -/
def StatusArg.Readable : StatusArg → Prop
  | .number (.integer n) => 0 ≤ n ∧ n < 2 ^ 16
  | .object (.integer min) (.integer max) => (0 ≤ min ∧ min < 2 ^ 16) ∧ 0 ≤ max ∧ max < 2 ^ 16
  | _ => False

/-- How a number is read as a `u16`: a number out of the range is refused. -/
def ReadsU16 (getU16 : JsField → Option ℕ) : Prop :=
  ∀ n : ℤ, getU16 (.integer n) = if 0 ≤ n ∧ n < 2 ^ 16 then some n.toNat else none

/-- The request is counted as expected when an argument matches, and as unexpected otherwise. -/
def CountedAsGiven (getU16 : JsField → Option ℕ) (args : List StatusArg) (specs : List StatusSpec)
    (status : ℕ) : Prop :=
  ∃ expected, (parseResponseCallback getU16 (callbackOf specs)).expected status = some expected ∧
    (expected = true ↔ ∃ arg ∈ args, arg.Matches status)

/-- No argument is left out that would decide about the status; without a readable argument, the
status is decided as by default. -/
def ReadableDecides (args : List StatusArg) (status : ℕ) : Prop :=
  ((∃ arg ∈ args, arg.Readable) ∧
      ∀ arg ∈ args, arg.Matches status → ∃ arg' ∈ args, arg'.Readable ∧ arg'.Matches status) ∨
    (∀ arg ∈ args, ¬arg.Readable) ∧
      ((∃ arg ∈ args, arg.Matches status) ↔ 200 ≤ status ∧ status ≤ 399)

/-! ## Specifications -/

def StatusArg.Gives (arg : StatusArg) (spec : StatusSpec) : Prop :=
  arg = .number (.integer spec.min) ∧ spec.max = spec.min ∨
    arg = .object (.integer spec.min) (.integer spec.max)

theorem gives_of_statusSpec {i : ℕ} {arg : StatusArg} {spec : StatusSpec}
    (h : statusSpec i arg = .ok spec) : arg.Gives spec := by
  cases arg with
  | other => cases h
  | number n =>
      cases n with
      | other => cases h
      | integer n =>
          cases h
          exact .inl ⟨rfl, rfl⟩
  | object min max =>
      cases min with
      | other => cases h
      | integer min =>
          cases max with
          | other => cases h
          | integer max =>
              cases h
              exact .inr rfl

theorem gives_of_statusSpecsFrom {i : ℕ} {args : List StatusArg} {specs : List StatusSpec}
    (h : statusSpecsFrom i args = .ok specs) : List.Forall₂ StatusArg.Gives args specs := by
  induction args generalizing i specs with
  | nil =>
      cases h
      exact .nil
  | cons arg args ih =>
      obtain ⟨spec, hspec, h⟩ := Except.bind_eq_ok_iff.mp h
      obtain ⟨rest, hrest, h⟩ := Except.bind_eq_ok_iff.mp h
      cases h
      exact .cons (gives_of_statusSpec hspec) (ih hrest)

section

variable {getU16 : JsField → Option ℕ} {arg : StatusArg} {spec : StatusSpec} {status : ℕ}

theorem matches_iff (h : arg.Gives spec) :
    arg.Matches status ↔ spec.min ≤ status ∧ (status : ℤ) ≤ spec.max := by
  rcases h with ⟨rfl, hmax⟩ | rfl
  · rw [hmax, StatusArg.Matches]
    omega
  · exact Iff.rfl

theorem readable_iff (h : arg.Gives spec) :
    arg.Readable ↔ (0 ≤ spec.min ∧ spec.min < 2 ^ 16) ∧ 0 ≤ spec.max ∧ spec.max < 2 ^ 16 := by
  rcases h with ⟨rfl, hmax⟩ | rfl
  · rw [hmax, and_self]
    exact Iff.rfl
  · exact Iff.rfl

/-- A range is read with its bounds, or left out. -/
theorem readSpec_eq_some_iff (hget : ReadsU16 getU16) {read : ℕ × ℕ} :
    readSpec getU16 (.object (.integer spec.min) (.integer spec.max)) = some read ↔
      ((0 ≤ spec.min ∧ spec.min < 2 ^ 16) ∧ 0 ≤ spec.max ∧ spec.max < 2 ^ 16) ∧
        read = (spec.min.toNat, spec.max.toNat) := by
  rw [readSpec, hget spec.min, hget spec.max]
  by_cases hmin : 0 ≤ spec.min ∧ spec.min < 2 ^ 16
  · by_cases hmax : 0 ≤ spec.max ∧ spec.max < 2 ^ 16
    · rw [if_pos hmin, if_pos hmax]
      simp only [Option.some_inj]
      exact ⟨fun h => ⟨⟨hmin, hmax⟩, h.symm⟩, fun h => h.2.symm⟩
    · rw [if_pos hmin, if_neg hmax]
      exact iff_of_false nofun fun h => hmax h.1.2
  · rw [if_neg hmin]
    exact iff_of_false nofun fun h => hmin h.1.1

/-- The ranges that are read are those of the readable arguments. -/
theorem exists_readSpec_iff (hget : ReadsU16 getU16) {args : List StatusArg}
    {specs : List StatusSpec}
    (h : List.Forall₂ StatusArg.Gives args specs) {P : ℕ × ℕ → Prop} {Q : StatusArg → Prop}
    (hPQ : ∀ arg spec, arg.Gives spec → arg.Readable →
      (P (spec.min.toNat, spec.max.toNat) ↔ Q arg)) :
    (∃ read ∈ (specs.map fun spec =>
      SpecValue.object (.integer spec.min) (.integer spec.max)).filterMap
        (readSpec getU16), P read) ↔ ∃ arg ∈ args, arg.Readable ∧ Q arg := by
  simp only [List.mem_filterMap, List.mem_map]
  constructor
  · rintro ⟨read, ⟨_, ⟨spec, hspec, rfl⟩, hread⟩, hP⟩
    obtain ⟨hbounds, rfl⟩ := (readSpec_eq_some_iff hget).mp hread
    obtain ⟨arg, harg, hgives⟩ := List.exists_mem_of_forall₂ h.flip hspec
    have hreadable := (readable_iff hgives).mpr hbounds
    exact ⟨arg, harg, hreadable, (hPQ arg spec hgives hreadable).mp hP⟩
  · rintro ⟨arg, harg, hreadable, hQ⟩
    obtain ⟨spec, hspec, hgives⟩ := List.exists_mem_of_forall₂ h harg
    refine ⟨_, ⟨_, ⟨spec, hspec, rfl⟩, (readSpec_eq_some_iff hget).mpr ⟨?_, rfl⟩⟩, ?_⟩
    · exact (readable_iff hgives).mp hreadable
    · exact (hPQ arg spec hgives hreadable).mpr hQ

/-- The specified statuses decide exactly when every range that matches can be read or is covered by
one that can, and the default stands in for ranges of which none can be read. -/
theorem countedAsGiven_iff (hget : ReadsU16 getU16) {args : List StatusArg}
    {specs : List StatusSpec}
    (h : expectedStatuses args = .ok specs) (status : ℕ) :
    CountedAsGiven getU16 args specs status ↔ ReadableDecides args status := by
  have hgives : List.Forall₂ StatusArg.Gives args specs := by
    rw [expectedStatuses] at h
    split at h
    · cases h
    · exact gives_of_statusSpecsFrom h
  have hread := exists_readSpec_iff hget hgives (P := fun _ => True) (Q := fun _ => True)
    fun _ _ _ _ => Iff.rfl
  have hmatch := exists_readSpec_iff hget hgives
    (P := fun read => (decide (read.1 ≤ status) && decide (status ≤ read.2)) = true)
    (Q := StatusArg.Matches status) fun arg spec hspec hreadable => by
      obtain ⟨⟨hmin, -⟩, hmax, -⟩ := (readable_iff hspec).mp hreadable
      rw [matches_iff hspec, Bool.and_eq_true, decide_eq_true_iff, decide_eq_true_iff]
      simp only
      omega
  simp only [and_true] at hread
  rw [CountedAsGiven, callbackOf, parseResponseCallback, ReadableDecides]
  generalize (specs.map fun spec =>
    SpecValue.object (.integer spec.min) (.integer spec.max)).filterMap
    (readSpec getU16) = reads at hread hmatch ⊢
  cases reads with
  | nil =>
      have hnone : ∀ arg ∈ args, ¬arg.Readable := fun arg harg hreadable =>
        nomatch hread.mpr ⟨arg, harg, hreadable⟩
      have hdefault : (200 ≤ status && status ≤ 399) = true ↔ 200 ≤ status ∧ status ≤ 399 := by
        rw [Bool.and_eq_true, decide_eq_true_iff, decide_eq_true_iff]
      constructor
      · rintro ⟨expected, hexpected, hiff⟩
        cases hexpected
        exact .inr ⟨hnone, hiff.symm.trans hdefault⟩
      · rintro (⟨⟨arg, harg, hreadable⟩, -⟩ | ⟨-, hiff⟩)
        · exact (hnone arg harg hreadable).elim
        · exact ⟨_, rfl, hdefault.trans hiff.symm⟩
  | cons read reads =>
      have hreadable := hread.mp ⟨read, List.mem_cons_self⟩
      have hany := (List.any_eq_true (l := read :: reads)).trans hmatch
      constructor
      · rintro ⟨expected, hexpected, hiff⟩
        cases hexpected
        exact .inl ⟨hreadable, fun arg harg hmatches =>
          hany.mp (hiff.mpr ⟨arg, harg, hmatches⟩)⟩
      · rintro (⟨-, hcovered⟩ | ⟨hnone, -⟩)
        · refine ⟨_, rfl, hany.trans ⟨?_, fun ⟨arg, harg, hmatches⟩ => hcovered arg harg hmatches⟩⟩
          rintro ⟨arg, harg, -, hmatches⟩
          exact ⟨arg, harg, hmatches⟩
        · obtain ⟨arg, harg, h⟩ := hreadable
          exact (hnone arg harg h).elim

end

section Example

def integerU16 : JsField → Option ℕ
  | .integer n => if 0 ≤ n ∧ n < 2 ^ 16 then some n.toNat else none
  | .other => none

theorem countedAsGiven_success :
    CountedAsGiven integerU16 [.number (.integer 404), .object (.integer 200) (.integer 299)]
        [⟨404, 404⟩, ⟨200, 299⟩] 201 ↔
      ReadableDecides [.number (.integer 404), .object (.integer 200) (.integer 299)] 201 :=
  countedAsGiven_iff (fun _ => rfl) rfl 201

/-- A range up to 100000 is left out, so a 404 in it is unexpected. -/
theorem not_countedAsGiven :
    expectedStatuses [.object (.integer 200) (.integer 100000)] = .ok [⟨200, 100000⟩] ∧
      ¬CountedAsGiven integerU16 [.object (.integer 200) (.integer 100000)] [⟨200, 100000⟩]
        404 := by
  refine ⟨rfl, ?_⟩
  rintro ⟨expected, hexpected, hiff⟩
  cases hexpected
  have hmatches : (StatusArg.object (.integer 200) (.integer 100000)).Matches 404 := by
    rw [StatusArg.Matches]
    decide
  exact absurd (hiff.mpr ⟨_, List.mem_singleton_self _, hmatches⟩) (by decide)

end Example

end K6Rs
