import K6Rs.Library.DoubleBound
import Mathlib.Tactic.Linarith
import Mathlib.Tactic.Ring

/-! Rounding errors of double-precision floats. A float that was computed from non-negative numbers
in `n` roundings is off by no more than the `n`-th power of what one rounding does. -/

namespace Double

/-- What one rounding may change, relative to the size. -/
def roundoff : ℚ := 2 ^ (-53 : ℤ)

/-- The least size from which a rounding is relative. -/
def leastNormal : ℚ := 2 ^ (-1022 : ℤ)

theorem roundoff_pos : 0 < roundoff := two_zpow_pos _

theorem leastNormal_pos : 0 < leastNormal := two_zpow_pos _

theorem abs_roundEven_sub_le {x : ℚ} (hx : 0 ≤ x) : |(roundEven x : ℚ) - x| ≤ 1 / 2 := by
  have hlow := Nat.floor_le hx
  have hhigh := Nat.lt_floor_add_one x
  rw [abs_le, roundEven]
  split
  · rename_i hnear
    constructor
    · rcases hnear with hnear | ⟨hnear, -⟩ <;> linarith
    · linarith
  · rename_i hfar
    have hhalf : 1 / 2 ≤ x - ⌊x⌋₊ := by
      by_contra hlt
      exact hfar (.inl (not_le.mp hlt))
    push_cast
    constructor <;> linarith

/-- The value of a magnitude by the exponent and the significand it was put together from. -/
theorem magValue_of_parts {e : ℤ} {n : ℕ} (he : -1022 ≤ e) (hn : n ≤ 2 ^ 53)
    (hnormal : 2 ^ 52 ≤ n ∨ e = -1022) :
    magValue ((e + 1022).toNat * 2 ^ 52 + n) = n * 2 ^ (e - 52) := by
  obtain ⟨k, hk⟩ : ∃ k : ℕ, (e + 1022).toNat = k := ⟨_, rfl⟩
  have hek : e = k - 1022 := by omega
  rcases hn.eq_or_lt with rfl | hlt
  · -- The significand carries into the exponent.
    have hcarry : (e + 1022).toNat * 2 ^ 52 + 2 ^ 53 = twoMag (e + 1) := by
      rw [twoMag]
      omega
    rw [hcarry, magValue_twoMag (by omega)]
    have hsplit : e + 1 = 53 + (e - 52) := by ring
    rw [hsplit, zpow_add₀ two_ne_zero]
    norm_num
  · have hexp : exponent (k * 2 ^ 52 + n) = k + 1 := by
      rw [exponent]
      omega
    have hsig : significand (k * 2 ^ 52 + n) = n := by
      rw [significand, hexp]
      omega
    have hcast : ((k + 1 : ℕ) : ℤ) - 1075 = e - 52 := by omega
    rw [hk, magValue, hexp, hsig, hcast]

/-- One rounding. -/
theorem abs_magValue_roundMag_sub_le {q : ℚ} (hq : 0 ≤ q) :
    |magValue (roundMag q) - q| ≤ roundoff * (q + leastNormal) := by
  rcases hq.eq_or_lt with rfl | hpos
  · rw [roundMag_zero, magValue_zero, sub_zero, abs_zero, zero_add]
    exact (mul_pos roundoff_pos leastNormal_pos).le
  obtain ⟨e, he⟩ : ∃ e, roundExp q = e := ⟨_, rfl⟩
  have hlow : -1022 ≤ e := he ▸ le_max_right _ _
  have hunit := two_zpow_pos (e - 52)
  have hinv : (2 : ℚ) ^ (52 - e) * 2 ^ (e - 52) = 1 := by
    rw [← zpow_add₀ two_ne_zero]
    have hzero : 52 - e + (e - 52) = 0 := by ring
    rw [hzero, zpow_zero]
  have hlog : q < 2 ^ (e + 1) := by
    have hself := Int.lt_zpow_succ_log_self (R := ℚ) (b := 2) (by decide) q
    refine hself.trans_le ?_
    rw [Nat.cast_ofNat]
    exact zpow_le_zpow_right₀ one_le_two (by rw [← he, roundExp]; omega)
  have hsig : roundEven (q * 2 ^ (52 - e)) ≤ 2 ^ 53 := by
    apply roundEven_le_of_le
    calc q * 2 ^ (52 - e) ≤ 2 ^ (e + 1) * 2 ^ (52 - e) :=
          mul_le_mul_of_nonneg_right hlog.le (two_zpow_pos _).le
      _ = ((2 ^ 53 : ℕ) : ℚ) := by
          rw [← zpow_add₀ two_ne_zero]
          have hsum : e + 1 + (52 - e) = 53 := by ring
          rw [hsum]
          norm_num
  -- Either the number is at least the power of two of its exponent, or it is subnormal.
  have hsize : 2 ^ 52 ≤ roundEven (q * 2 ^ (52 - e)) ∧ (2 : ℚ) ^ e ≤ q ∨ e = -1022 := by
    by_cases heq : e = -1022
    · exact .inr heq
    · left
      have hexp : Int.log 2 q = e := by
        rw [roundExp] at he
        omega
      have hself := Int.zpow_log_le_self (R := ℚ) (b := 2) (by decide) hpos
      rw [Nat.cast_ofNat, hexp] at hself
      refine ⟨le_roundEven_of_le ?_, hself⟩
      calc ((2 ^ 52 : ℕ) : ℚ) = 2 ^ e * 2 ^ (52 - e) := by
            rw [← zpow_add₀ two_ne_zero]
            have hsum : e + (52 - e) = 52 := by ring
            rw [hsum]
            norm_num
        _ ≤ q * 2 ^ (52 - e) := mul_le_mul_of_nonneg_right hself (two_zpow_pos _).le
  have hvalue : magValue (roundMag q) = roundEven (q * 2 ^ (52 - e)) * 2 ^ (e - 52) := by
    rw [roundMag, if_neg hpos.ne', he]
    exact magValue_of_parts hlow hsig (hsize.imp_left And.left)
  have hdiff : magValue (roundMag q) - q =
      (roundEven (q * 2 ^ (52 - e)) - q * 2 ^ (52 - e)) * 2 ^ (e - 52) := by
    rw [hvalue, sub_mul, mul_assoc, hinv, mul_one]
  have hhalf := abs_roundEven_sub_le (mul_nonneg hq (two_zpow_pos (52 - e)).le)
  have hpow : (2 : ℚ) ^ e ≤ q + leastNormal := by
    rcases hsize with ⟨-, hle⟩ | rfl
    · linarith [leastNormal_pos]
    · rw [leastNormal]
      linarith
  rw [hdiff, abs_mul, abs_of_pos hunit]
  calc _ ≤ 1 / 2 * 2 ^ (e - 52) := mul_le_mul_of_nonneg_right hhalf hunit.le
    _ = roundoff * 2 ^ e := by
        rw [roundoff, ← zpow_add₀ two_ne_zero]
        have hsum : -53 + e = (e - 52) - 1 := by ring
        rw [hsum, zpow_sub_one₀ two_ne_zero]
        ring
    _ ≤ roundoff * (q + leastNormal) := mul_le_mul_of_nonneg_left hpow roundoff_pos.le

/-! ## Runs of roundings -/

/-- A finite float, not negative, that is `n` roundings away from `q`; what was lost below the
normal sizes makes for a slack of `t`. -/
structure Near (n : ℕ) (t : ℚ) (x : Double) (q : ℚ) : Prop where
  nonneg : x.signBit = false
  finite : x.IsFinite
  exact_nonneg : 0 ≤ q
  slack : leastNormal ≤ t
  error : |x.toRat - q| ≤ ((1 + roundoff) ^ n - 1) * (q + t)

variable {n m : ℕ} {t u q r p : ℚ} {x y : Double}

theorem finite_ofMag_iff {m : ℕ} (s : Bool) : (ofMag s m).IsFinite ↔ m < infMag := by
  change min m infMag < infMag ↔ m < infMag
  omega

theorem exists_num_of_nonneg (hx : x.IsFinite) (h : x.signBit = false) :
    ∃ m : Fin (infMag + 1), x = num false m ∧ (m : ℕ) ≠ infMag := by
  cases x with
  | nan => cases hx
  | num s m =>
      obtain rfl : s = false := h
      exact ⟨m, rfl, hx.ne⟩

/-- One more rounding, of a number `p` that is `n` roundings away. -/
theorem near_round (hfin : (ofMag false (roundMag p)).IsFinite) (hp : 0 ≤ p) (hq : 0 ≤ q)
    (ht : leastNormal ≤ t) (herror : |p - q| ≤ ((1 + roundoff) ^ n - 1) * (q + t)) :
    Near (n + 1) t (ofMag false (roundMag p)) q := by
  refine ⟨rfl, hfin, hq, ht, ?_⟩
  rw [toRat_ofMag ((finite_ofMag_iff false).mp hfin)]
  have hround := abs_magValue_roundMag_sub_le hp
  have hsize : p + leastNormal ≤ (1 + roundoff) ^ n * (q + t) := by
    have := le_abs_self (p - q)
    linarith
  calc |magValue (roundMag p) - q| ≤ |magValue (roundMag p) - p| + |p - q| := abs_sub_le _ _ _
    _ ≤ roundoff * ((1 + roundoff) ^ n * (q + t)) + ((1 + roundoff) ^ n - 1) * (q + t) :=
        add_le_add (hround.trans (mul_le_mul_of_nonneg_left hsize roundoff_pos.le)) herror
    _ = ((1 + roundoff) ^ (n + 1) - 1) * (q + t) := by ring

theorem near_ofRat (hq : 0 ≤ q) (hfin : (ofRat q).IsFinite) : Near 1 leastNormal (ofRat q) q := by
  rw [ofRat_of_nonneg hq] at hfin ⊢
  exact near_round (n := 0) hfin hq hq le_rfl (by simp)

theorem Near.mono (h : Near n t x q) (hnm : n ≤ m) (htu : t ≤ u) : Near m u x q := by
  refine ⟨h.nonneg, h.finite, h.exact_nonneg, h.slack.trans htu, h.error.trans ?_⟩
  have hsize : 0 ≤ q + t := add_nonneg h.exact_nonneg (leastNormal_pos.le.trans h.slack)
  have hbase : 1 ≤ 1 + roundoff := le_add_of_nonneg_right roundoff_pos.le
  have hpow : 1 ≤ (1 + roundoff) ^ m := one_le_pow₀ hbase
  calc ((1 + roundoff) ^ n - 1) * (q + t) ≤ ((1 + roundoff) ^ m - 1) * (q + t) :=
        mul_le_mul_of_nonneg_right (sub_le_sub_right (pow_le_pow_right₀ hbase hnm) 1) hsize
    _ ≤ ((1 + roundoff) ^ m - 1) * (q + u) :=
        mul_le_mul_of_nonneg_left (by linarith) (sub_nonneg.mpr hpow)

theorem mul_of_nonneg (hx : x.IsFinite) (hy : y.IsFinite) (hxs : x.signBit = false)
    (hys : y.signBit = false) : FloatOps.mul x y = ofMag false (roundMag (x.toRat * y.toRat)) := by
  obtain ⟨m, rfl, hm⟩ := exists_num_of_nonneg hx hxs
  obtain ⟨n, rfl, hn⟩ := exists_num_of_nonneg hy hys
  change Double.mul (num false m) (num false n) = _
  rw [Double.mul, if_neg (by simp [hm, hn]), round,
    abs_of_nonneg (mul_nonneg (magValue_nonneg m) (magValue_nonneg n))]
  rfl

theorem add_of_nonneg (hx : x.IsFinite) (hy : y.IsFinite) (hxs : x.signBit = false)
    (hys : y.signBit = false) : FloatOps.add x y = ofMag false (roundMag (x.toRat + y.toRat)) := by
  obtain ⟨m, rfl, hm⟩ := exists_num_of_nonneg hx hxs
  obtain ⟨n, rfl, hn⟩ := exists_num_of_nonneg hy hys
  change Double.add (num false m) (num false n) = _
  have hsum : 0 ≤ (num false m).toRat + (num false n).toRat :=
    add_nonneg (magValue_nonneg m) (magValue_nonneg n)
  rw [Double.add, if_neg hm, if_neg hn]
  simp only
  split
  · rename_i hzero
    rw [hzero, roundMag_zero]
    rfl
  · exact ofRat_of_nonneg hsum

theorem toRat_nonneg (hx : x.IsFinite) (h : x.signBit = false) : 0 ≤ x.toRat := by
  obtain ⟨m, rfl, -⟩ := exists_num_of_nonneg hx h
  exact magValue_nonneg m

/-- The product with a natural number that is a float. -/
theorem Near.mul_ofNat (h : Near n t x q) {c : ℕ} (hpos : 0 < c) (hc : c < 2 ^ 53)
    (hfin : (FloatOps.mul x (FloatOps.ofNat c)).IsFinite) :
    Near (n + 1) (t * c) (FloatOps.mul x (FloatOps.ofNat c)) (q * c) := by
  have hvalue : (FloatOps.ofNat c : Double).toRat = c := toRat_ofRat_natCast hc
  have hofRat : (FloatOps.ofNat c : Double) = ofMag false (roundMag c) :=
    ofRat_of_nonneg (Nat.cast_nonneg c)
  have hcfin : (FloatOps.ofNat c : Double).IsFinite := by
    rw [hofRat, finite_ofMag_iff]
    refine lt_of_le_of_lt ?_ (twoMag_lt (k := 53) (by norm_num))
    rw [← roundMag_two_zpow (by norm_num)]
    refine roundMag_mono (Nat.cast_nonneg c) ?_
    have : (c : ℚ) ≤ (2 ^ 53 : ℕ) := by exact_mod_cast hc.le
    exact this.trans_eq (by norm_num)
  have hcs : (FloatOps.ofNat c : Double).signBit = false := by
    rw [hofRat]
    rfl
  have hc1 : (1 : ℚ) ≤ c := by exact_mod_cast hpos
  have hc0 : (0 : ℚ) ≤ c := Nat.cast_nonneg c
  rw [mul_of_nonneg h.finite hcfin h.nonneg hcs, hvalue] at hfin ⊢
  apply near_round hfin (mul_nonneg (toRat_nonneg h.finite h.nonneg) hc0)
    (mul_nonneg h.exact_nonneg hc0)
  · exact h.slack.trans (le_mul_of_one_le_right (leastNormal_pos.le.trans h.slack) hc1)
  · rw [← sub_mul, abs_mul, abs_of_nonneg hc0]
    calc _ ≤ ((1 + roundoff) ^ n - 1) * (q + t) * c := mul_le_mul_of_nonneg_right h.error hc0
      _ = ((1 + roundoff) ^ n - 1) * (q * c + t * c) := by ring

theorem Near.add (hx : Near n t x q) (hy : Near n u y r)
    (hfin : (FloatOps.add x y).IsFinite) : Near (n + 1) (t + u) (FloatOps.add x y) (q + r) := by
  rw [add_of_nonneg hx.finite hy.finite hx.nonneg hy.nonneg] at hfin ⊢
  apply near_round hfin
    (add_nonneg (toRat_nonneg hx.finite hx.nonneg) (toRat_nonneg hy.finite hy.nonneg))
    (add_nonneg hx.exact_nonneg hy.exact_nonneg)
  · exact hx.slack.trans (le_add_of_nonneg_right (leastNormal_pos.le.trans hy.slack))
  · have hsplit : x.toRat + y.toRat - (q + r) = x.toRat - q + (y.toRat - r) := by ring
    rw [hsplit]
    calc _ ≤ |x.toRat - q| + |y.toRat - r| := abs_add_le _ _
      _ ≤ ((1 + roundoff) ^ n - 1) * (q + t) + ((1 + roundoff) ^ n - 1) * (r + u) :=
          add_le_add hx.error hy.error
      _ = ((1 + roundoff) ^ n - 1) * (q + r + (t + u)) := by ring

/-! ## Infinity -/

theorem finite_of_add (h : (FloatOps.add x y).IsFinite) : x.IsFinite ∧ y.IsFinite := by
  cases x with
  | nan => cases h
  | num s m =>
      cases y with
      | nan => cases h
      | num t n =>
          change (Double.add (num s m) (num t n)).IsFinite at h
          have hmle : (m : ℕ) ≤ infMag := by omega
          have hnle : (n : ℕ) ≤ infMag := by omega
          rw [Double.add] at h
          split at h
          · rename_i hm
            split at h
            · cases h
            · exact absurd h (by simp [IsFinite, hm])
          · rename_i hm
            split at h
            · rename_i hn
              exact absurd h (by simp [IsFinite, hn])
            · rename_i hn
              exact ⟨hmle.lt_of_ne hm, hnle.lt_of_ne hn⟩

theorem finite_of_mul (h : (FloatOps.mul x y).IsFinite) : x.IsFinite := by
  cases x with
  | nan => cases h
  | num s m =>
      cases y with
      | nan => cases h
      | num t n =>
          change (Double.mul (num s m) (num t n)).IsFinite at h
          have hmle : (m : ℕ) ≤ infMag := by omega
          rw [Double.mul] at h
          split at h
          · split at h
            · cases h
            · exact absurd h (by simp [ofMag, IsFinite])
          · rename_i hfin
            rw [not_or] at hfin
            exact hmle.lt_of_ne hfin.1

/-! ## Rounding to integers -/

/-- From `2 ^ 52` on a float is an integer. -/
theorem exists_natCast_of_large {m : ℕ} (h : 2 ^ 52 ≤ magValue m) : ∃ k : ℕ, magValue m = k := by
  have hexp : 1075 ≤ exponent m := by
    by_contra hlt
    have hsig : (significand m : ℚ) < 2 ^ 53 := by exact_mod_cast significand_lt m
    have hle : (2 : ℚ) ^ ((exponent m : ℤ) - 1075) ≤ 2 ^ (-1 : ℤ) :=
      zpow_le_zpow_right₀ one_le_two (by omega)
    have hpos := two_zpow_pos ((exponent m : ℤ) - 1075)
    rw [magValue] at h
    have hvalue : (significand m : ℚ) * 2 ^ ((exponent m : ℤ) - 1075) < 2 ^ 53 * 2 ^ (-1 : ℤ) :=
      calc _ < 2 ^ 53 * 2 ^ ((exponent m : ℤ) - 1075) := mul_lt_mul_of_pos_right hsig hpos
        _ ≤ _ := mul_le_mul_of_nonneg_left hle (by norm_num)
    norm_num at hvalue h
    linarith
  refine ⟨significand m * 2 ^ (exponent m - 1075), ?_⟩
  rw [magValue, Nat.cast_mul, Nat.cast_pow, Nat.cast_ofNat, ← zpow_natCast, Nat.cast_sub hexp]
  rfl

theorem toRat_roundAway (hx : x.IsFinite) (h : x.signBit = false) :
    x.roundAway = ofMag false (roundMag ⌊x.toRat + 1 / 2⌋₊) ∧
      magValue (roundMag ⌊x.toRat + 1 / 2⌋₊) = ⌊x.toRat + 1 / 2⌋₊ := by
  obtain ⟨m, rfl, hm⟩ := exists_num_of_nonneg hx h
  have hvalue : (num false m).toRat = magValue m := rfl
  refine ⟨?_, ?_⟩
  · rw [roundAway, if_neg hm, round, abs_of_nonneg (Nat.cast_nonneg _)]
    rfl
  · rw [hvalue]
    rcases lt_or_ge (magValue m) (2 ^ 52) with hsmall | hlarge
    · apply magValue_roundMag_natCast
      have hlt : ⌊magValue m + 1 / 2⌋₊ < 2 ^ 53 := by
        rw [Nat.floor_lt (add_nonneg (magValue_nonneg m) (by norm_num))]
        push_cast
        linarith
      exact hlt
    · obtain ⟨k, hk⟩ := exists_natCast_of_large hlarge
      have hfloor : ⌊magValue m + 1 / 2⌋₊ = k := by
        rw [hk, Nat.floor_eq_iff (by positivity)]
        constructor <;> linarith
      rw [hfloor, ← hk, roundMag_magValue]

/-- A float below `2 ^ 64`, as a 64-bit integer. -/
theorem toU64_roundAway (hx : x.IsFinite) (h : x.signBit = false) (hlt : x.toRat < 2 ^ 64) :
    x.roundAway.toU64 = ⌊x.toRat + 1 / 2⌋₊ := by
  obtain ⟨haway, hvalue⟩ := toRat_roundAway hx h
  have hnonneg := toRat_nonneg hx h
  -- The largest float below the power of two is an integer.
  have hbound : ⌊x.toRat + 1 / 2⌋₊ < 2 ^ 64 := by
    obtain ⟨m, rfl, -⟩ := exists_num_of_nonneg hx h
    change ⌊magValue m + 1 / 2⌋₊ < 2 ^ 64
    have hlt : magValue m < 2 ^ 64 := hlt
    rcases lt_or_ge (magValue m) (2 ^ 52) with hsmall | hlarge
    · rw [Nat.floor_lt (add_nonneg (magValue_nonneg m) (by norm_num))]
      push_cast
      linarith
    · obtain ⟨k, hk⟩ := exists_natCast_of_large hlarge
      rw [hk] at hlt ⊢
      have hk64 : k < 2 ^ 64 := by exact_mod_cast hlt
      rw [Nat.floor_lt (by positivity)]
      have : (k : ℚ) + 1 ≤ (2 ^ 64 : ℕ) := by exact_mod_cast hk64
      push_cast at this ⊢
      linarith
  have hmag : roundMag ⌊x.toRat + 1 / 2⌋₊ < infMag := by
    refine lt_of_le_of_lt ?_ (twoMag_lt (k := 64) (by norm_num))
    rw [← roundMag_two_zpow (by norm_num)]
    refine roundMag_mono (Nat.cast_nonneg _) ?_
    have : ((⌊x.toRat + 1 / 2⌋₊ : ℕ) : ℚ) ≤ (2 ^ 64 : ℕ) := by exact_mod_cast hbound.le
    exact this.trans_eq (by norm_num)
  have hmin : min (roundMag ⌊x.toRat + 1 / 2⌋₊) infMag = roundMag ⌊x.toRat + 1 / 2⌋₊ :=
    min_eq_left hmag.le
  rw [haway, ofMag, toU64, if_neg Bool.false_ne_true]
  simp only [hmin, hmag.ne, if_false, hvalue, Nat.floor_natCast]
  omega

end Double
