import K6Rs.Library.Double

/-! Bounds by powers of two, through the operations of double-precision floats. A power of two is a
float, so that rounding does not pass it. -/

namespace Double

/-! ## Powers of two -/

/-- The magnitude of a power of two. -/
def twoMag (k : ℤ) : ℕ := (k + 1023).toNat * 2 ^ 52

theorem magValue_twoMag {k : ℤ} (h : -1022 ≤ k) : magValue (twoMag k) = 2 ^ k := by
  have hexp : exponent (twoMag k) = (k + 1023).toNat := by
    rw [exponent, twoMag]
    omega
  have hsig : significand (twoMag k) = 2 ^ 52 := by
    rw [significand, hexp, twoMag]
    omega
  have hcast : (((k + 1023).toNat : ℕ) : ℤ) - 1075 = k - 52 := by omega
  rw [magValue, hexp, hsig, hcast, zpow_sub₀ two_ne_zero]
  norm_num
  ring

theorem twoMag_lt {k : ℤ} (h : k ≤ 1023) : twoMag k < infMag := by
  have : (k + 1023).toNat ≤ 2046 := by omega
  rw [twoMag, infMag]
  omega

theorem twoMag_lt_twoMag {j k : ℤ} (hj : -1023 ≤ j) (h : j < k) : twoMag j < twoMag k := by
  rw [twoMag, twoMag]
  omega

theorem roundMag_two_zpow {k : ℤ} (h : -1022 ≤ k) : roundMag (2 ^ k) = twoMag k := by
  rw [← magValue_twoMag h, roundMag_magValue]

/-- The rounding of a number between two powers of two. -/
theorem roundMag_eq {q : ℚ} {k : ℤ} (hk : -1022 ≤ k) (hlow : 2 ^ k ≤ q) (hhigh : q < 2 ^ (k + 1)) :
    roundMag q = (k + 1022).toNat * 2 ^ 52 + roundEven (q * 2 ^ (52 - k)) := by
  have hpos : 0 < q := (two_zpow_pos k).trans_le hlow
  have hlog : Int.log 2 q = k := by
    apply le_antisymm
    · apply Int.lt_add_one_iff.mp
      rw [← Int.lt_zpow_iff_log_lt (by decide) hpos, Nat.cast_ofNat]
      exact hhigh
    · rw [← Int.zpow_le_iff_le_log (by decide) hpos, Nat.cast_ofNat]
      exact hlow
  have hexp : roundExp q = k := by
    rw [roundExp, hlog]
    omega
  rw [roundMag, if_neg hpos.ne', hexp]

/-- Just above a power of two, rounding goes back to it. -/
theorem roundMag_two_zpow_add {k : ℤ} (h : -968 ≤ k) :
    roundMag (2 ^ k + 2 ^ (k - 54)) = twoMag k := by
  have hsmall : (2 : ℚ) ^ (k - 54) < 2 ^ k := zpow_lt_zpow_right₀ one_lt_two (by omega)
  have hpos := two_zpow_pos (k - 54)
  have hunit : ((2 : ℚ) ^ k + 2 ^ (k - 54)) * 2 ^ (52 - k) = 2 ^ 52 + 1 / 4 := by
    rw [add_mul, ← zpow_add₀ two_ne_zero, ← zpow_add₀ two_ne_zero]
    have hfront : k + (52 - k) = 52 := by ring
    have hback : k - 54 + (52 - k) = -2 := by ring
    rw [hfront, hback]
    norm_num
  have hround : roundEven (2 ^ 52 + 1 / 4) = 2 ^ 52 := by
    have hfloor : ⌊(2 ^ 52 + 1 / 4 : ℚ)⌋₊ = 2 ^ 52 := by norm_num [Nat.floor_eq_iff]
    rw [roundEven, hfloor]
    norm_num
  rw [roundMag_eq (k := k) (by omega) (by linarith)
    (by rw [zpow_add_one₀ two_ne_zero]; linarith), hunit, hround, twoMag]
  omega

/-- Half a unit below a power of two, rounding goes up to it. -/
theorem twoMag_le_roundMag_iff {k : ℤ} (h : -967 ≤ k) {q : ℚ} (hq : 0 ≤ q) :
    twoMag k ≤ roundMag q ↔ 2 ^ k - 2 ^ (k - 54) ≤ q := by
  have hhalf : (2 : ℚ) ^ k = 2 ^ (k - 1) + 2 ^ (k - 1) := by
    have hsplit : k = k - 1 + 1 := by ring
    conv_lhs => rw [hsplit, zpow_add_one₀ two_ne_zero]
    ring
  have hsmall : (2 : ℚ) ^ (k - 54) < 2 ^ (k - 1) := zpow_lt_zpow_right₀ one_lt_two (by omega)
  have hpos := two_zpow_pos (k - 54)
  have hunit : ∀ x : ℚ, 2 ^ (k - 1) ≤ x → x < 2 ^ k →
      roundMag x = (k + 1021).toNat * 2 ^ 52 + roundEven (x * 2 ^ (53 - k)) := by
    intro x hlow hhigh
    have hround := roundMag_eq (k := k - 1) (by omega) hlow (by simpa using hhigh)
    have hexp : 52 - (k - 1) = 53 - k := by ring
    have hbase : k - 1 + 1022 = k + 1021 := by ring
    rw [hexp, hbase] at hround
    exact hround
  have hedge : ((2 : ℚ) ^ k - 2 ^ (k - 54)) * 2 ^ (53 - k) = 2 ^ 53 - 1 / 2 := by
    rw [sub_mul, ← zpow_add₀ two_ne_zero, ← zpow_add₀ two_ne_zero]
    have hfront : k + (53 - k) = 53 := by ring
    have hback : k - 54 + (53 - k) = -1 := by ring
    rw [hfront, hback]
    norm_num
  constructor
  · intro hle
    by_contra hlt
    rw [not_le] at hlt
    rcases lt_or_ge q (2 ^ (k - 1)) with hbelow | habove
    · have hmono := roundMag_mono hq hbelow.le
      rw [roundMag_two_zpow (by omega)] at hmono
      have := twoMag_lt_twoMag (j := k - 1) (k := k) (by omega) (by omega)
      omega
    · have hfloor : roundEven (q * 2 ^ (53 - k)) ≤ 2 ^ 53 - 1 := by
        have hx : q * 2 ^ (53 - k) < 2 ^ 53 - 1 / 2 := by
          rw [← hedge]
          exact mul_lt_mul_of_pos_right hlt (two_zpow_pos _)
        have := roundEven_lt_of_lt (n := 2 ^ 53) (by norm_num) (by exact_mod_cast hx)
        omega
      rw [hunit q habove (by linarith), twoMag] at hle
      omega
  · intro hle
    have hround : roundEven (2 ^ 53 - 1 / 2) = 2 ^ 53 := by
      have hfloor : ⌊(2 ^ 53 - 1 / 2 : ℚ)⌋₊ = 2 ^ 53 - 1 := by norm_num [Nat.floor_eq_iff]
      rw [roundEven, hfloor]
      norm_num
    have hmono := roundMag_mono (by linarith) hle
    rw [hunit _ (by linarith) (by linarith), hedge, hround] at hmono
    have htwo : twoMag k = (k + 1021).toNat * 2 ^ 52 + 2 ^ 53 := by
      rw [twoMag]
      omega
    exact htwo.trans_le hmono

/-- The natural numbers below `2 ^ 53` are floats. -/
theorem magValue_roundMag_natCast {n : ℕ} (h : n < 2 ^ 53) : magValue (roundMag n) = n := by
  rcases Nat.eq_zero_or_pos n with rfl | hpos
  · simp
  obtain ⟨k, hk⟩ : ∃ k, k = Nat.log2 n := ⟨_, rfl⟩
  have hlow : 2 ^ k ≤ n := hk ▸ Nat.log2_self_le hpos.ne'
  have hhigh : n < 2 ^ (k + 1) := hk ▸ Nat.lt_log2_self
  have hk52 : k ≤ 52 := by
    have : k < 53 := (Nat.pow_lt_pow_iff_right one_lt_two).mp (hlow.trans_lt h)
    omega
  have hround := roundMag_eq (q := n) (k := k) (by omega) (by exact_mod_cast hlow)
    (by exact_mod_cast hhigh)
  have hexact : (n : ℚ) * 2 ^ (52 - (k : ℤ)) = ((n * 2 ^ (52 - k) : ℕ) : ℚ) := by
    rw [Nat.cast_mul, Nat.cast_pow, Nat.cast_ofNat, ← zpow_natCast, Nat.cast_sub hk52]
    rfl
  rw [hexact, roundEven_natCast] at hround
  have hnat : ((k : ℤ) + 1022).toNat = k + 1022 := by omega
  rw [hnat] at hround
  -- The significand fills its 53 bits.
  have hfull : 2 ^ 52 ≤ n * 2 ^ (52 - k) ∧ n * 2 ^ (52 - k) < 2 ^ 53 := by
    have hsplit : ∀ i, i + k = 52 → 2 ^ 52 = 2 ^ k * 2 ^ i := by
      intro i hi
      rw [← pow_add, Nat.add_comm k, hi]
    have h52 := hsplit (52 - k) (by omega)
    constructor
    · rw [h52]
      exact Nat.mul_le_mul_right _ hlow
    · have h53 : 2 ^ 53 = 2 ^ (k + 1) * 2 ^ (52 - k) := by
        rw [← pow_add]
        congr 1
        omega
      rw [h53]
      exact Nat.mul_lt_mul_of_pos_right hhigh (by positivity)
  generalize hs : n * 2 ^ (52 - k) = s at hround hfull hexact
  have hexp : exponent (roundMag n) = k + 1023 := by
    rw [hround, exponent]
    omega
  have hsig : significand (roundMag n) = s := by
    rw [significand, hexp, hround]
    omega
  have hcast : ((k + 1023 : ℕ) : ℤ) - 1075 = k - 52 := by omega
  rw [magValue, hexp, hsig, hcast, ← hexact, mul_assoc, ← zpow_add₀ two_ne_zero]
  have hzero : 52 - (k : ℤ) + (k - 52) = 0 := by ring
  rw [hzero, zpow_zero, mul_one]

/-! ## Bounded floats -/

/-- A finite float of size at most `2 ^ k`. -/
def Below (k : ℤ) (x : Double) : Prop := x.IsFinite ∧ |x.toRat| ≤ 2 ^ k

/-- A finite float from `2 ^ j` to `2 ^ k`. -/
def Between (j k : ℤ) (x : Double) : Prop := x.IsFinite ∧ 2 ^ j ≤ x.toRat ∧ x.toRat ≤ 2 ^ k

theorem abs_toRat_num (s : Bool) (m : Fin (infMag + 1)) : |toRat (num s m)| = magValue m := by
  cases s
  · exact abs_of_nonneg (magValue_nonneg m)
  · rw [toRat, if_pos rfl, abs_neg, abs_of_nonneg (magValue_nonneg m)]

variable {i j k l : ℤ} {x y : Double} {q : ℚ}

theorem Below.mono (h : Below j x) (hjk : j ≤ k) : Below k x :=
  ⟨h.1, h.2.trans (zpow_le_zpow_right₀ one_le_two hjk)⟩

theorem Between.below (h : Between j k x) : Below k x := by
  refine ⟨h.1, ?_⟩
  rw [abs_of_nonneg ((two_zpow_pos j).le.trans h.2.1)]
  exact h.2.2

theorem below_ofMag (s : Bool) {m : ℕ} (hlow : -1022 ≤ k) (hhigh : k ≤ 1023)
    (h : m ≤ twoMag k) : Below k (ofMag s m) := by
  have hfin := h.trans_lt (twoMag_lt hhigh)
  have hmag : min m infMag = m := min_eq_left hfin.le
  refine ⟨?_, ?_⟩
  · change min m infMag < infMag
    rw [hmag]
    exact hfin
  · rw [ofMag, abs_toRat_num, ← magValue_twoMag hlow]
    apply magValue_strictMono.monotone
    change min m infMag ≤ twoMag k
    rw [hmag]
    exact h

theorem below_round (s : Bool) (hlow : -1022 ≤ k) (hhigh : k ≤ 1023) (h : |q| ≤ 2 ^ k) :
    Below k (round s q) := by
  apply below_ofMag s hlow hhigh
  rw [← roundMag_two_zpow hlow]
  exact roundMag_mono (abs_nonneg q) h

theorem ofRat_of_nonneg (hq : 0 ≤ q) : ofRat q = ofMag false (roundMag q) := by
  rw [ofRat, round, abs_of_nonneg hq, decide_eq_false (not_lt.mpr hq)]

theorem ofRat_zero : ofRat 0 = num false 0 := by simp [ofRat, round, ofMag]

/-- The rounding of a number that is not negative, as an exact value. -/
theorem toRat_ofMag {m : ℕ} (h : m < infMag) : (ofMag false m).toRat = magValue m := by
  have hmag : min m infMag = m := min_eq_left h.le
  rw [ofMag, toRat, if_neg Bool.false_ne_true]
  simp only [hmag]

theorem toRat_ofRat_natCast {n : ℕ} (h : n < 2 ^ 53) : (ofRat n).toRat = n := by
  have hmag : roundMag n < infMag := by
    refine lt_of_le_of_lt ?_ (twoMag_lt (k := 53) (by norm_num))
    rw [← roundMag_two_zpow (by norm_num)]
    refine roundMag_mono (Nat.cast_nonneg n) ?_
    have : (n : ℚ) ≤ (2 ^ 53 : ℕ) := by exact_mod_cast h.le
    exact this.trans_eq (by norm_num)
  rw [ofRat_of_nonneg (Nat.cast_nonneg n), toRat_ofMag hmag, magValue_roundMag_natCast h]

theorem between_ofRat (hj : -1022 ≤ j) (hk : k ≤ 1023) (hlow : 2 ^ j ≤ q) (hhigh : q ≤ 2 ^ k) :
    Between j k (ofRat q) := by
  have hpos := (two_zpow_pos j).trans_le hlow
  have hjk : j ≤ k := (zpow_le_zpow_iff_right₀ one_lt_two).mp (hlow.trans hhigh)
  have hmag : roundMag q ≤ twoMag k := by
    rw [← roundMag_two_zpow (hj.trans hjk)]
    exact roundMag_mono hpos.le hhigh
  have hfin := hmag.trans_lt (twoMag_lt hk)
  have hbelow := below_ofMag false (hj.trans hjk) hk hmag
  rw [ofRat_of_nonneg hpos.le]
  refine ⟨hbelow.1, ?_, ?_⟩
  · rw [toRat_ofMag hfin, ← magValue_twoMag hj]
    apply magValue_strictMono.monotone
    rw [← roundMag_two_zpow hj]
    exact roundMag_mono (two_zpow_pos j).le hlow
  · exact (le_abs_self _).trans hbelow.2

/-- The sum of two finite floats, unless it is zero. -/
theorem add_of_finite (hx : x.IsFinite) (hy : y.IsFinite) (h : x.toRat + y.toRat ≠ 0) :
    FloatOps.add x y = ofRat (x.toRat + y.toRat) := by
  cases x with
  | nan => cases hx
  | num s m =>
      cases y with
      | nan => cases hy
      | num t n =>
          have hm : (m : ℕ) ≠ infMag := hx.ne
          have hn : (n : ℕ) ≠ infMag := hy.ne
          change Double.add (num s m) (num t n) = _
          simp only [add, hm, hn, h, if_false]

theorem add_eq_zero (hx : x.IsFinite) (hy : y.IsFinite) (h : x.toRat + y.toRat = 0) :
    ∃ s, FloatOps.add x y = ofMag s 0 := by
  cases x with
  | nan => cases hx
  | num s m =>
      cases y with
      | nan => cases hy
      | num t n =>
          have hm : (m : ℕ) ≠ infMag := hx.ne
          have hn : (n : ℕ) ≠ infMag := hy.ne
          refine ⟨s && t, ?_⟩
          change Double.add (num s m) (num t n) = _
          simp only [add, hm, hn, h, if_false, if_true]

theorem between_add (hx : x.IsFinite) (hy : y.IsFinite) (hj : -1022 ≤ j) (hk : k ≤ 1023)
    (hlow : 2 ^ j ≤ x.toRat + y.toRat) (hhigh : x.toRat + y.toRat ≤ 2 ^ k) :
    Between j k (FloatOps.add x y) := by
  have hpos := (two_zpow_pos j).trans_le hlow
  rw [add_of_finite hx hy hpos.ne']
  exact between_ofRat hj hk hlow hhigh

/-- A sum stays below a power of two to which the bounds of its terms round. -/
theorem Below.add_of_round (hx : Below i x) (hy : Below j y) (hlow : -1022 ≤ k) (hhigh : k ≤ 1023)
    (h : roundMag ((2 : ℚ) ^ i + 2 ^ j) ≤ twoMag k) : Below k (FloatOps.add x y) := by
  by_cases hzero : x.toRat + y.toRat = 0
  · obtain ⟨s, hs⟩ := add_eq_zero hx.1 hy.1 hzero
    rw [hs]
    exact below_ofMag s hlow hhigh (Nat.zero_le _)
  · rw [add_of_finite hx.1 hy.1 hzero]
    apply below_ofMag _ hlow hhigh
    refine le_trans (roundMag_mono (abs_nonneg _) ?_) h
    exact (abs_add_le _ _).trans (add_le_add hx.2 hy.2)

theorem Below.add (hx : Below k x) (hy : Below k y) (hlow : -1022 ≤ k) (hhigh : k ≤ 1022) :
    Below (k + 1) (FloatOps.add x y) := by
  apply hx.add_of_round hy (by omega) (by omega)
  have htwo : (2 : ℚ) ^ k + 2 ^ k = 2 ^ (k + 1) := by
    rw [zpow_add_one₀ two_ne_zero]
    ring
  rw [htwo, roundMag_two_zpow (by omega)]

/-- A term that is too small does not lift the bound, however many of them there are. -/
theorem Below.add_small (hx : Below k x) (hy : Below (k - 54) y) (hlow : -968 ≤ k)
    (hhigh : k ≤ 1023) : Below k (FloatOps.add x y) := by
  apply hx.add_of_round hy (by omega) hhigh
  rw [roundMag_two_zpow_add hlow]

theorem Below.neg (h : Below k x) : Below k x.neg := by
  refine ⟨?_, ?_⟩
  · cases x with
    | nan => exact h.1
    | num s m => exact h.1
  · rw [toRat_neg, abs_neg]
    exact h.2

theorem Below.sub (hx : Below k x) (hy : Below k y) (hlow : -1022 ≤ k) (hhigh : k ≤ 1022) :
    Below (k + 1) (FloatOps.sub x y) :=
  hx.add hy.neg hlow hhigh

theorem Below.mul (hx : Below i x) (hy : Below j y) (hlow : -1022 ≤ i + j) (hhigh : i + j ≤ 1023) :
    Below (i + j) (FloatOps.mul x y) := by
  cases x with
  | nan => cases hx.1
  | num s m =>
      cases y with
      | nan => cases hy.1
      | num t n =>
          have hm : (m : ℕ) ≠ infMag := hx.1.ne
          have hn : (n : ℕ) ≠ infMag := hy.1.ne
          have hxy : magValue m * magValue n ≤ 2 ^ (i + j) := by
            rw [zpow_add₀ two_ne_zero, ← abs_toRat_num s, ← abs_toRat_num t]
            exact mul_le_mul hx.2 hy.2 (abs_nonneg _) (two_zpow_pos i).le
          change Below (i + j) (Double.mul (num s m) (num t n))
          rw [Double.mul, if_neg (by simp [hm, hn])]
          apply below_round _ hlow hhigh
          rw [abs_of_nonneg (mul_nonneg (magValue_nonneg m) (magValue_nonneg n))]
          exact hxy

theorem exists_num_of_pos (h : 0 < x.toRat) : ∃ m, x = num false m := by
  cases x with
  | nan => exact absurd h (lt_irrefl 0)
  | num s m =>
      cases s with
      | false => exact ⟨m, rfl⟩
      | true =>
          have := magValue_nonneg m
          simp only [toRat, if_true] at h
          linarith

/-- The quotient of a finite float by a positive one. -/
theorem div_of_pos (hx : x.IsFinite) (hy : y.IsFinite) (h : 0 < y.toRat) :
    FloatOps.div x y = round x.signBit (x.toRat / y.toRat) := by
  obtain ⟨n, rfl⟩ := exists_num_of_pos h
  cases x with
  | nan => cases hx
  | num s m =>
      have hm : (m : ℕ) ≠ infMag := hx.ne
      have hn : (n : ℕ) ≠ infMag := hy.ne
      have hn0 : (n : ℕ) ≠ 0 := by
        intro hzero
        simp [toRat, hzero] at h
      change Double.div (num s m) (num false n) = _
      simp only [Double.div, hm, hn, hn0, if_false, round, signBit, Bool.xor_false]
      rw [abs_div, abs_div, abs_toRat_num, abs_toRat_num, abs_of_nonneg (magValue_nonneg m),
        abs_of_nonneg (magValue_nonneg n)]

theorem Below.div (hx : Below i x) (hy : Between j l y) (hlow : -1022 ≤ i - j)
    (hhigh : i - j ≤ 1023) : Below (i - j) (FloatOps.div x y) := by
  have hpos := (two_zpow_pos j).trans_le hy.2.1
  rw [div_of_pos hx.1 hy.1 hpos]
  apply below_round _ hlow hhigh
  rw [abs_div, abs_of_pos hpos, zpow_sub₀ two_ne_zero]
  exact div_le_div₀ (two_zpow_pos i).le hx.2 (two_zpow_pos j) hy.2.1

theorem Between.div (hx : Between i k x) (hy : Between j l y) (hlow : -1022 ≤ i - l)
    (hhigh : k - j ≤ 1023) : Between (i - l) (k - j) (FloatOps.div x y) := by
  have hxpos := (two_zpow_pos i).trans_le hx.2.1
  have hypos := (two_zpow_pos j).trans_le hy.2.1
  have hround : round x.signBit (x.toRat / y.toRat) = ofRat (x.toRat / y.toRat) := by
    obtain ⟨m, rfl⟩ := exists_num_of_pos hxpos
    rw [ofRat, decide_eq_false (not_lt.mpr (div_pos hxpos hypos).le)]
    rfl
  rw [div_of_pos hx.1 hy.1 hypos, hround]
  apply between_ofRat hlow hhigh
  · rw [zpow_sub₀ two_ne_zero]
    exact div_le_div₀ hxpos.le hx.2.1 hypos hy.2.2
  · rw [zpow_sub₀ two_ne_zero]
    exact div_le_div₀ (two_zpow_pos k).le hx.2.2 (two_zpow_pos j) hy.2.1

/-- The product of two positive floats. -/
theorem mul_of_pos (hx : x.IsFinite) (hy : y.IsFinite) (hxpos : 0 < x.toRat) (hypos : 0 < y.toRat) :
    FloatOps.mul x y = ofRat (x.toRat * y.toRat) := by
  obtain ⟨m, rfl⟩ := exists_num_of_pos hxpos
  obtain ⟨n, rfl⟩ := exists_num_of_pos hypos
  have hm : (m : ℕ) ≠ infMag := hx.ne
  have hn : (n : ℕ) ≠ infMag := hy.ne
  change Double.mul (num false m) (num false n) = _
  rw [Double.mul, if_neg (by simp [hm, hn]), ofRat,
    decide_eq_false (not_lt.mpr (mul_pos hxpos hypos).le)]
  rfl

theorem Between.mul (hx : Between i k x) (hy : Between j l y) (hlow : -1022 ≤ i + j)
    (hhigh : k + l ≤ 1023) : Between (i + j) (k + l) (FloatOps.mul x y) := by
  have hxpos := (two_zpow_pos i).trans_le hx.2.1
  have hypos := (two_zpow_pos j).trans_le hy.2.1
  rw [mul_of_pos hx.1 hy.1 hxpos hypos]
  apply between_ofRat hlow hhigh
  · rw [zpow_add₀ two_ne_zero]
    exact mul_le_mul hx.2.1 hy.2.1 (two_zpow_pos j).le hxpos.le
  · rw [zpow_add₀ two_ne_zero]
    exact mul_le_mul hx.2.2 hy.2.2 hypos.le (two_zpow_pos k).le

/-- When a quotient stays under a power of two. -/
theorem div_lt_two_zpow_iff (hx : x.IsFinite) (hy : y.IsFinite) (h : 0 < y.toRat)
    (hdiv : (FloatOps.div x y).IsFinite) (hk : -967 ≤ k) :
    (FloatOps.div x y).toRat < 2 ^ k ↔ x.toRat < (2 ^ k - 2 ^ (k - 54)) * y.toRat := by
  have hedge : (0 : ℚ) < 2 ^ k - 2 ^ (k - 54) :=
    sub_pos.mpr (zpow_lt_zpow_right₀ one_lt_two (by omega))
  cases x with
  | nan => cases hx
  | num s m =>
      have hm := magValue_nonneg m
      rw [div_of_pos hx hy h, round, abs_div, abs_toRat_num, abs_of_pos h] at hdiv ⊢
      have hp : 0 ≤ magValue m / y.toRat := div_nonneg hm h.le
      have hmag : roundMag (magValue m / y.toRat) < infMag := by
        by_contra hge
        have : min (roundMag (magValue m / y.toRat)) infMag < infMag := hdiv
        omega
      cases s with
      | true =>
          constructor
          · intro _
            have hneg : (num true m).toRat ≤ 0 := by
              rw [toRat, if_pos rfl]
              linarith
            exact hneg.trans_lt (mul_pos hedge h)
          · intro _
            refine lt_of_le_of_lt ?_ (two_zpow_pos k)
            rw [signBit, ofMag, toRat, if_pos rfl]
            exact neg_nonpos.mpr (magValue_nonneg _)
      | false =>
          have hiff := twoMag_le_roundMag_iff hk hp
          have htwo := magValue_twoMag (k := k) (by omega)
          simp only [signBit, toRat_ofMag hmag]
          rw [← htwo, magValue_strictMono.lt_iff_lt, ← not_le, hiff, not_le, div_lt_iff₀ h, htwo]
          rfl

/-- Nothing divided by zero is finite. -/
theorem not_finite_div_zero (x : Double) : ¬(FloatOps.div x (num false 0)).IsFinite := by
  cases x with
  | nan => exact id
  | num s m =>
      have hinf : (0 : ℕ) ≠ infMag := by norm_num [infMag]
      change ¬(Double.div (num s m) (num false 0)).IsFinite
      by_cases hm : (m : ℕ) = infMag
      · simp [Double.div, hm, hinf, ofMag, IsFinite]
      · by_cases hz : (m : ℕ) = 0
        · simp [Double.div, hz, hinf, IsFinite]
        · simp [Double.div, hm, hz, hinf, ofMag, IsFinite]

/-! ## Comparisons -/

theorem rank_le_rank_iff (hx : x.IsFinite) (hy : y.IsFinite) :
    x.rank ≤ y.rank ↔ x.toRat ≤ y.toRat := by
  cases x with
  | nan => cases hx
  | num s m =>
      cases y with
      | nan => cases hy
      | num t n =>
          have hm := magValue_nonneg m
          have hn := magValue_nonneg n
          have hle : ∀ a b : ℕ, magValue a ≤ magValue b ↔ a ≤ b :=
            fun a b => magValue_strictMono.le_iff_le
          have hzero : ∀ a : ℕ, magValue a ≤ 0 ↔ a = 0 := fun a => by
            rw [← magValue_zero, hle, Nat.le_zero]
          have hm0 := hzero m
          have hn0 := hzero n
          cases s <;> cases t <;>
            simp only [rank, toRat, if_true, if_false, Bool.false_eq_true, neg_le_neg_iff, hle,
              Nat.cast_le]
          · constructor
            · intro h
              have hmzero : (m : ℕ) = 0 := by omega
              have hnzero : (n : ℕ) = 0 := by omega
              rw [hmzero, hnzero]
              simp
            · intro h
              have hmzero := hm0.mp (by linarith)
              have hnzero := hn0.mp (by linarith)
              omega
          · constructor
            · intro _
              linarith
            · intro _
              omega

theorem le_iff_toRat (hx : x.IsFinite) (hy : y.IsFinite) :
    FloatOps.le x y = true ↔ x.toRat ≤ y.toRat := by
  rw [le_iff_rank hx hy, rank_le_rank_iff hx hy]

end Double
