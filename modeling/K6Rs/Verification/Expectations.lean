import K6Rs.Library.Except
import K6Rs.Verification.RunDiff

/-! The tolerances of an expectations file. The defaults are parsed when the file is loaded, the
overrides are not, and no tolerance is checked for its range; a file whose defaults parse is
honoured when each tolerance that is written in it is sound. -/

namespace K6Rs

open FloatOps

/-! ## What a file says -/

def RawOverride.texts (o : RawOverride) : List Str :=
  o.count.toList ++ o.rate.toList ++ o.trend.toList

namespace RawExpectations

def overrideOf (raw : RawExpectations) (selector : Str) : Option RawOverride :=
  (raw.tolerances.overrides.getD ∅).find? selector

def defaultTexts (raw : RawExpectations) : List Str :=
  raw.tolerances.defaultCounter.toList ++ raw.tolerances.defaultTrend.toList

/-- Every tolerance that is written in the file. -/
def texts (raw : RawExpectations) : List Str :=
  raw.defaultTexts ++ (raw.tolerances.overrides.getD ∅).entries.flatMap fun e => e.2.texts

/-- What is written for a field of a selector: in its override, or else as the default. -/
def textOf (raw : RawExpectations) (selector : Str) (field : RawOverride → Option Str)
    (default : Option Str)
    (fallback : Str) : Str :=
  match (raw.overrideOf selector).bind field with
  | some s => s
  | none => default.getD fallback

def countText (raw : RawExpectations) (selector : Str) : Str :=
  raw.textOf selector RawOverride.count raw.tolerances.defaultCounter "exact".toList

def rateText (raw : RawExpectations) (selector : Str) : Str :=
  raw.textOf selector RawOverride.rate raw.tolerances.defaultTrend "relative:0.05".toList

def trendText (raw : RawExpectations) (selector : Str) : Str :=
  raw.textOf selector RawOverride.trend raw.tolerances.defaultTrend "relative:0.05".toList

end RawExpectations

/-- The tolerance is no relative one that is negative or not a number. -/
def Tolerance.Sound : Tolerance Double → Prop
  | .exact => True
  | .relative eps => eq eps eps = true ∧ lt eps zero = false
  | .ignore => True

instance : (tol : Tolerance Double) → Decidable tol.Sound
  | .exact => inferInstanceAs (Decidable True)
  | .relative _ => inferInstanceAs (Decidable (_ ∧ _))
  | .ignore => inferInstanceAs (Decidable True)

def readTolerance (s : Str) : Option (Tolerance Double) := Tolerance.parse s

def SoundText (s : Str) : Prop := ∃ tol, readTolerance s = some tol ∧ tol.Sound

theorem soundText_of_any {s : Str} (h : (readTolerance s).any (fun tol => tol.Sound) = true) :
    SoundText s := by
  obtain ⟨tol, htol, hsound⟩ := (Option.any_eq_true _ _).mp h
  exact ⟨tol, htol, of_decide_eq_true hsound⟩

namespace Expectations

/-- For every selector each tolerance is the one that is written for it. -/
def Follows (exp : Expectations Double) (raw : RawExpectations) : Prop :=
  ∀ selector, readTolerance (raw.countText selector) = some (exp.toleranceFor selector).count ∧
    readTolerance (raw.rateText selector) = some (exp.toleranceFor selector).rate ∧
    readTolerance (raw.trendText selector) = some (exp.toleranceFor selector).trend

variable (fromStr : Str → Option RawExpectations) (path : Str) (file : Option Str)

/-- What loading a file that reads as `raw` promises: the tolerances of the result are those that
are written, and a file with a tolerance that is not sound is rejected. -/
structure Honours (raw : RawExpectations) : Prop where
  follows : ∀ exp : ScriptExpectations Double,
    load fromStr path file = .ok exp → exp.toExpectations.Follows raw
  rejects : (∃ s ∈ raw.texts, ¬SoundText s) → ∃ e,
    (load fromStr path file : Except Str (ScriptExpectations Double)) = .error e

/-! ## Loading -/

theorem parseTolerance_eq_ok {s : Str} {tol : Tolerance Double} :
    parseTolerance s = .ok tol ↔ readTolerance s = some tol := by
  rw [parseTolerance, ← readTolerance]
  cases readTolerance s <;> simp

variable {fromStr path file} {raw : RawExpectations}

/-- The result for a file with these defaults. -/
def loaded (raw : RawExpectations) (defaultCounter defaultTrend : Tolerance Double) :
    ScriptExpectations Double where
  expectedExitCode := raw.run.expectedExitCode.getD 0
  vus := raw.run.vus
  iterations := raw.run.iterations
  duration := raw.run.duration
  defaultCounter := defaultCounter
  defaultTrend := defaultTrend
  overrides := raw.tolerances.overrides.getD ∅
  knownDrift := raw.knownDrift.getD ∅

theorem load_eq_ok_iff {exp : ScriptExpectations Double} (hraw : file.bind fromStr = some raw) :
    load fromStr path file = .ok exp ↔
      ∃ counter, readTolerance (raw.tolerances.defaultCounter.getD "exact".toList) = some counter ∧
      ∃ trend, readTolerance (raw.tolerances.defaultTrend.getD "relative:0.05".toList) =
      some trend ∧
        loaded raw counter trend = exp := by
  obtain ⟨text, rfl, hparsed⟩ := Option.bind_eq_some_iff.mp hraw
  rw [load]
  simp only [Except.ok_bind, hparsed, Except.bind_eq_ok_iff, parseTolerance_eq_ok]
  simp only [pure, Except.pure, Except.ok.injEq, loaded]

theorem exists_readTolerance_default {written : Option Str} {fallback : Str}
    (hfallback : (readTolerance fallback).isSome)
    (h : ∀ s ∈ written, (readTolerance s).isSome) : ∃ tol,
    readTolerance (written.getD fallback) = some tol := by
  rw [← Option.isSome_iff_exists]
  cases written with
  | none => exact hfallback
  | some s => exact h s rfl

/-- A field of the tolerance of a selector, where its override parses. -/
theorem readTolerance_textOf {selector : Str} {field : RawOverride → Option Str}
    {default : Option Str} {fallback : Str}
    {tol : Tolerance Double} (hdefault : readTolerance (default.getD fallback) = some tol)
    (hfield : ∀ s ∈ (raw.overrideOf selector).bind field, (readTolerance s).isSome) :
    readTolerance (raw.textOf selector field default fallback) =
      some ((((raw.overrideOf selector).bind field).bind Tolerance.parse).getD tol) := by
  rw [RawExpectations.textOf]
  cases hwritten : (raw.overrideOf selector).bind field with
  | none => exact hdefault
  | some s =>
      obtain ⟨tol', htol'⟩ := Option.isSome_iff_exists.mp (hfield s hwritten)
      have hparse : Tolerance.parse s = some tol' := htol'
      simp only [Option.bind_some, hparse, Option.getD_some, htol']

theorem mem_texts_of_override {selector s : Str} {o : RawOverride}
    (ho : raw.overrideOf selector = some o)
    (hs : s ∈ o.texts) : s ∈ raw.texts := by
  apply List.mem_append_right
  exact List.mem_flatMap.mpr ⟨(selector, o), (SortedMap.find?_eq_some_iff _ _ _).mp ho, hs⟩

/-- Where every tolerance that is written parses, the file is followed. -/
theorem follows_of_isSome {exp : ScriptExpectations Double} (hraw : file.bind fromStr = some raw)
    (hload : load fromStr path file = .ok exp)
      (htexts : ∀ s ∈ raw.texts, (readTolerance s).isSome) :
    exp.toExpectations.Follows raw := by
  obtain ⟨counter, hcounter, trend, htrend, rfl⟩ := (load_eq_ok_iff hraw).mp hload
  intro selector
  have hfield : ∀ field : RawOverride → Option Str, (∀ o s, field o = some s → s ∈ o.texts) →
      ∀ s ∈ (raw.overrideOf selector).bind field, (readTolerance s).isSome := by
    intro field hmem s hs
    obtain ⟨o, ho, hfield⟩ := Option.bind_eq_some_iff.mp hs
    exact htexts s (mem_texts_of_override ho (hmem o s hfield))
  refine ⟨readTolerance_textOf hcounter (hfield _ ?_), readTolerance_textOf htrend (hfield _ ?_),
    readTolerance_textOf htrend (hfield _ ?_)⟩ <;> (intro o s hs; simp [RawOverride.texts, hs])

/-- A file that is read and parses is honoured exactly when all its tolerances are sound, or a
default does not parse, and it is rejected. -/
theorem honours_iff (hraw : file.bind fromStr = some raw) : Honours fromStr path file raw ↔
    (∀ s ∈ raw.texts, SoundText s) ∨ ∃ s ∈ raw.defaultTexts, readTolerance s = none := by
  have hexact : (readTolerance "exact".toList).isSome := by decide +kernel
  have hrelative : (readTolerance "relative:0.05".toList).isSome := by decide +kernel
  constructor
  · intro h
    by_contra hnot
    rw [not_or] at hnot
    obtain ⟨hbad, hdefaults⟩ := hnot
    have hparses : ∀ s ∈ raw.defaultTexts, (readTolerance s).isSome := by
      intro s hs
      rw [Option.isSome_iff_ne_none]
      exact fun hnone => hdefaults ⟨s, hs, hnone⟩
    obtain ⟨counter, hcounter⟩ := exists_readTolerance_default hexact
      fun s hs => hparses s (List.mem_append_left _ (Option.mem_toList.mpr hs))
    obtain ⟨trend, htrend⟩ := exists_readTolerance_default hrelative
      fun s hs => hparses s (List.mem_append_right _ (Option.mem_toList.mpr hs))
    have hload : load fromStr path file = .ok (loaded raw counter trend) :=
      (load_eq_ok_iff hraw).mpr ⟨counter, hcounter, trend, htrend, rfl⟩
    obtain ⟨e, he⟩ := h.rejects (by simpa only [not_forall, exists_prop] using hbad)
    rw [hload] at he
    cases he
  · rintro (hsound | ⟨s, hs, hnone⟩)
    · constructor
      · intro exp hload
        refine follows_of_isSome hraw hload fun s hs => ?_
        obtain ⟨tol, htol, -⟩ := hsound s hs
        exact Option.isSome_of_eq_some htol
      · rintro ⟨s, hs, hunsound⟩
        exact absurd (hsound s hs) hunsound
    · have herror : ∀ exp : ScriptExpectations Double, load fromStr path file ≠ .ok exp := by
        intro exp hload
        obtain ⟨counter, hcounter, trend, htrend, -⟩ := (load_eq_ok_iff hraw).mp hload
        rcases List.mem_append.mp hs with hmem | hmem
        · rw [Option.mem_toList.mp hmem, Option.getD_some, hnone] at hcounter
          cases hcounter
        · rw [Option.mem_toList.mp hmem, Option.getD_some, hnone] at htrend
          cases htrend
      constructor
      · exact fun exp hload => absurd hload (herror exp)
      · intro _
        cases hresult : (load fromStr path file : Except Str (ScriptExpectations Double)) with
        | ok exp => exact absurd hresult (herror exp)
        | error e => exact ⟨e, rfl⟩

theorem soundText_textOf (hsound : ∀ s ∈ raw.texts, SoundText s) (selector : Str)
    {field : RawOverride → Option Str} {default : Option Str} {fallback : Str}
    (hfield : ∀ o s, field o = some s → s ∈ o.texts)
      (hdefault : ∀ s ∈ default, s ∈ raw.defaultTexts)
    (hfallback : SoundText fallback) : SoundText (raw.textOf selector field default fallback) := by
  rw [RawExpectations.textOf]
  cases hwritten : (raw.overrideOf selector).bind field with
  | some s =>
      obtain ⟨o, ho, hs⟩ := Option.bind_eq_some_iff.mp hwritten
      exact hsound s (mem_texts_of_override ho (hfield o s hs))
  | none =>
      cases default with
      | some s => exact hsound s (List.mem_append_left _ (hdefault s rfl))
      | none => exact hfallback

theorem nonNegative_of_text {s : Str} {tol : Tolerance Double} (htol : readTolerance s = some tol)
    (h : SoundText s) :
    tol.NonNegative := by
  obtain ⟨tol', htol', hsound⟩ := h
  rw [htol] at htol'
  cases htol'
  cases tol with
  | exact => trivial
  | relative eps => exact hsound.2
  | ignore => trivial

/-- Where the tolerances that are written are sound, so is every tolerance of the result, as the
comparison of two runs asks. -/
theorem nonNegative_of_sound {exp : ScriptExpectations Double} (hraw : file.bind fromStr = some raw)
    (hload : load fromStr path file = .ok exp) (hsound : ∀ s ∈ raw.texts, SoundText s) :
    exp.toExpectations.NonNegative := by
  have hexact : SoundText "exact".toList := soundText_of_any (by decide +kernel)
  have hrelative : SoundText "relative:0.05".toList := soundText_of_any (by decide +kernel)
  have hcounter : ∀ s ∈ raw.tolerances.defaultCounter, s ∈ raw.defaultTexts :=
    fun s hs => List.mem_append_left _ (Option.mem_toList.mpr hs)
  have hdefault : ∀ s ∈ raw.tolerances.defaultTrend, s ∈ raw.defaultTexts :=
    fun s hs => List.mem_append_right _ (Option.mem_toList.mpr hs)
  intro selector
  obtain ⟨hcount, hrate, htrend⟩ :=
    ((honours_iff hraw).mpr (.inl hsound)).follows exp hload selector
  refine ⟨nonNegative_of_text hcount (soundText_textOf hsound selector ?_ hcounter hexact),
    nonNegative_of_text hrate (soundText_textOf hsound selector ?_ hdefault hrelative),
    nonNegative_of_text htrend (soundText_textOf hsound selector ?_ hdefault hrelative)⟩ <;>
  (intro o s hs; simp [RawOverride.texts, hs])

end Expectations

end K6Rs
