import K6Rs.Model.ArrivalCurve
import Mathlib.Tactic.FieldSimp
import Mathlib.Tactic.Linarith
import Mathlib.Tactic.Ring
import Mathlib.Tactic.Positivity

/-! The arrival curve of nonnegative rates never falls. -/

namespace K6Rs

theorem secs_mono {a b : ℕ} (h : a ≤ b) : secs a ≤ secs b := by
  have hcast : (a : ℚ) ≤ b := by exact_mod_cast h
  rw [secs, secs]
  gcongr

theorem secs_nonneg (a : ℕ) : 0 ≤ secs a := by
  rw [secs]
  positivity

namespace Segment

/-- A segment runs forward in time between nonnegative rates. -/
structure Forward (seg : Segment) : Prop where
  ordered : seg.stageStart ≤ seg.stageEnd
  from_nonneg : 0 ≤ seg.fromRate
  to_nonneg : 0 ≤ seg.toRate

/-- The area under the first `u` seconds of a segment of `dur` seconds. -/
def area (seg : Segment) (dur u : ℚ) : ℚ :=
  seg.fromRate * u + (seg.toRate - seg.fromRate) * u * u / (2 * dur)

theorem area_mono {seg : Segment} (hseg : seg.Forward) {dur u v : ℚ} (hdur : 0 < dur)
    (hu : 0 ≤ u) (huv : u ≤ v) (hv : v ≤ dur) : seg.area dur u ≤ seg.area dur v := by
  -- The mean rate between `u` and `v` is a weighted mean of the rates at the ends.
  have hgrowth : seg.area dur v - seg.area dur u =
      (v - u) * (seg.fromRate * (2 * dur - (u + v)) + seg.toRate * (u + v)) / (2 * dur) := by
    simp only [area]
    field_simp
    ring
  have hfrom := mul_nonneg hseg.from_nonneg (by linarith : 0 ≤ 2 * dur - (u + v))
  have hto := mul_nonneg hseg.to_nonneg (by linarith : 0 ≤ u + v)
  have hnonneg := mul_nonneg (sub_nonneg.mpr huv) (add_nonneg hfrom hto)
  have hquotient := div_nonneg hnonneg (by linarith : 0 ≤ 2 * dur)
  linarith

end Segment

namespace ArrivalCurve

/-- The accumulator of the loop comes out as a summand. -/
theorem areaUpTo_eq_add (t : ℕ) (l : List Segment) (area : ℚ) :
    areaUpTo t l area = area + areaUpTo t l 0 := by
  induction l generalizing area with
  | nil => simp [areaUpTo]
  | cons seg rest ih =>
      simp only [areaUpTo]
      split
      · simp
      · split
        · exact ih area
        · rw [ih, ih (0 + _)]
          ring

theorem areaUpTo_cons_of_lt {t : ℕ} {seg : Segment} {rest : List Segment}
    (h : seg.stageStart < t) (hdur : 0 < secs (seg.stageEnd - seg.stageStart)) :
    areaUpTo t (seg :: rest) 0 =
      seg.area (secs (seg.stageEnd - seg.stageStart))
        (secs (min t seg.stageEnd - seg.stageStart)) + areaUpTo t rest 0 := by
  rw [areaUpTo, if_neg (not_le.mpr h), if_neg (not_le.mpr hdur), areaUpTo_eq_add, zero_add]
  rfl

theorem areaUpTo_cons_of_empty {t : ℕ} {seg : Segment} {rest : List Segment}
    (h : seg.stageStart < t) (hdur : secs (seg.stageEnd - seg.stageStart) ≤ 0) :
    areaUpTo t (seg :: rest) 0 = areaUpTo t rest 0 := by
  simp only [areaUpTo, if_neg (not_le.mpr h), if_pos hdur]

theorem areaUpTo_cons_of_le {t : ℕ} {seg : Segment} {rest : List Segment}
    (h : t ≤ seg.stageStart) : areaUpTo t (seg :: rest) 0 = 0 := by
  simp only [areaUpTo, if_pos h]

theorem areaUpTo_nonneg {l : List Segment} (hl : ∀ seg ∈ l, seg.Forward) (t : ℕ) :
    0 ≤ areaUpTo t l 0 := by
  induction l with
  | nil => exact le_rfl
  | cons seg rest ih =>
      have hrest := ih fun seg hseg => hl seg (List.mem_cons_of_mem _ hseg)
      have hseg := hl seg List.mem_cons_self
      rcases le_or_gt t seg.stageStart with h | h
      · rw [areaUpTo_cons_of_le h]
      · rcases le_or_gt (secs (seg.stageEnd - seg.stageStart)) 0 with hdur | hdur
        · rw [areaUpTo_cons_of_empty h hdur]
          exact hrest
        · have harea := Segment.area_mono hseg hdur le_rfl (secs_nonneg _)
            (secs_mono (Nat.sub_le_sub_right (Nat.min_le_right t seg.stageEnd) _))
          rw [areaUpTo_cons_of_lt h hdur]
          simp only [Segment.area, mul_zero, zero_div, add_zero] at harea ⊢
          exact add_nonneg harea hrest

theorem areaUpTo_mono {l : List Segment} (hl : ∀ seg ∈ l, seg.Forward) {t t' : ℕ}
    (ht : t ≤ t') : areaUpTo t l 0 ≤ areaUpTo t' l 0 := by
  induction l with
  | nil => exact le_rfl
  | cons seg rest ih =>
      have hrest := ih fun seg hseg => hl seg (List.mem_cons_of_mem _ hseg)
      have hseg := hl seg List.mem_cons_self
      rcases le_or_gt t seg.stageStart with h | h
      · rw [areaUpTo_cons_of_le h]
        exact areaUpTo_nonneg hl t'
      · have h' := h.trans_le ht
        rcases le_or_gt (secs (seg.stageEnd - seg.stageStart)) 0 with hdur | hdur
        · rw [areaUpTo_cons_of_empty h hdur, areaUpTo_cons_of_empty h' hdur]
          exact hrest
        · rw [areaUpTo_cons_of_lt h hdur, areaUpTo_cons_of_lt h' hdur]
          apply add_le_add _ hrest
          apply Segment.area_mono hseg hdur (secs_nonneg _)
          · exact secs_mono (by omega)
          · exact secs_mono (by omega)

theorem forward_build (stages : List Stage) (offset : ℕ) {prevRate : ℚ} (hprev : 0 ≤ prevRate) :
    ∀ seg ∈ (build offset prevRate stages).1, seg.Forward := by
  induction stages generalizing offset prevRate with
  | nil =>
      intro seg hseg
      cases hseg
  | cons stage stages ih =>
      have htarget : (0 : ℚ) ≤ stage.target := Nat.cast_nonneg _
      intro seg hseg
      rcases List.mem_cons.mp hseg with rfl | hseg
      · exact ⟨Nat.le_add_right _ _, hprev, htarget⟩
      · exact ih _ htarget seg hseg

theorem expectedArrivals_mono {startRate : ℚ} (hstart : 0 ≤ startRate) (stages : List Stage)
    (timeUnit : ℕ) {t t' : ℕ} (ht : t ≤ t') :
    (new startRate stages timeUnit).expectedArrivals t ≤
      (new startRate stages timeUnit).expectedArrivals t' := by
  apply div_le_div_of_nonneg_right _ (secs_nonneg timeUnit)
  exact areaUpTo_mono (forward_build stages 0 hstart) ht

theorem expectedArrivals_nonneg {startRate : ℚ} (hstart : 0 ≤ startRate) (stages : List Stage)
    (timeUnit t : ℕ) : 0 ≤ (new startRate stages timeUnit).expectedArrivals t :=
  div_nonneg (areaUpTo_nonneg (forward_build stages 0 hstart) t) (secs_nonneg timeUnit)

end ArrivalCurve

end K6Rs
