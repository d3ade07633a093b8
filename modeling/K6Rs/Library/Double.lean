import K6Rs.Library.FloatOps
import Mathlib.Data.Int.Log

/-! Double-precision floats: a sign with a magnitude, which is the bit pattern below the sign, or
the one NaN. An operation rounds its exact result to the nearest magnitude, ties to the even one. -/

/-- The magnitude of infinity. -/
def infMag : ℕ := 2047 * 2 ^ 52

theorem infMag_lt : infMag < 2 ^ 63 := by norm_num [infMag]

inductive Double where
  | nan
  | num (neg : Bool) (mag : Fin (infMag + 1))
  deriving DecidableEq

namespace Double

theorem two_zpow_pos (z : ℤ) : (0 : ℚ) < 2 ^ z := zpow_pos two_pos z

/-! ## The value of a magnitude -/

/-- The biased exponent; the subnormal magnitudes share the least one. -/
def exponent (m : ℕ) : ℕ := max (m / 2 ^ 52) 1

def significand (m : ℕ) : ℕ := m - (exponent m - 1) * 2 ^ 52

def magValue (m : ℕ) : ℚ := significand m * 2 ^ ((exponent m : ℤ) - 1075)

theorem one_le_exponent (m : ℕ) : 1 ≤ exponent m := le_max_right _ _

theorem eq_of_significand (m : ℕ) : (exponent m - 1) * 2 ^ 52 + significand m = m := by
  rw [significand, exponent]
  omega

theorem significand_lt (m : ℕ) : significand m < 2 ^ 53 := by
  rw [significand, exponent]
  omega

/-- A magnitude is normal, or has the least exponent. -/
theorem normal_or_subnormal (m : ℕ) : 2 ^ 52 ≤ significand m ∨ exponent m = 1 := by
  rw [significand, exponent]
  omega

theorem significand_succ (m : ℕ) :
    exponent (m + 1) = exponent m ∧ significand (m + 1) = significand m + 1 ∨
      exponent (m + 1) = exponent m + 1 ∧ significand (m + 1) = 2 ^ 52 ∧
        significand m + 1 = 2 ^ 53 := by
  simp only [significand, exponent]
  omega

theorem magValue_lt_succ (m : ℕ) : magValue m < magValue (m + 1) := by
  have hpos := two_zpow_pos ((exponent m : ℤ) - 1075)
  rw [magValue, magValue]
  rcases significand_succ m with ⟨he, hs⟩ | ⟨he, hs, hlast⟩
  · rw [he, hs]
    exact mul_lt_mul_of_pos_right (by exact_mod_cast Nat.lt_succ_self _) hpos
  · have hexp : ((exponent m + 1 : ℕ) : ℤ) - 1075 = ((exponent m : ℤ) - 1075) + 1 := by
      push_cast
      ring
    have hs' : (significand m : ℚ) < 2 ^ 53 := by
      have := significand_lt m
      exact_mod_cast this
    rw [he, hs, hexp, zpow_add_one₀ two_ne_zero]
    calc (significand m : ℚ) * 2 ^ ((exponent m : ℤ) - 1075)
        < 2 ^ 53 * 2 ^ ((exponent m : ℤ) - 1075) := mul_lt_mul_of_pos_right hs' hpos
      _ = ((2 ^ 52 : ℕ) : ℚ) * (2 ^ ((exponent m : ℤ) - 1075) * 2) := by push_cast; ring

theorem magValue_strictMono : StrictMono magValue := strictMono_nat_of_lt_succ magValue_lt_succ

@[simp] theorem magValue_zero : magValue 0 = 0 := by simp [magValue, significand]

theorem magValue_nonneg (m : ℕ) : 0 ≤ magValue m := by
  rw [← magValue_zero]
  exact magValue_strictMono.monotone (Nat.zero_le m)

/-! ## Rounding -/

/-- The nearest natural number, the even one of two. -/
def roundEven (x : ℚ) : ℕ :=
  let n := ⌊x⌋₊
  if x - n < 1 / 2 ∨ x - n = 1 / 2 ∧ n % 2 = 0 then n else n + 1

/-- The exponent of the unit in which `q` is rounded. -/
def roundExp (q : ℚ) : ℤ := max (Int.log 2 q) (-1022)

/-- The magnitude nearest to `q`, before the overflow to infinity. -/
def roundMag (q : ℚ) : ℕ :=
  if q = 0 then 0
  else (roundExp q + 1022).toNat * 2 ^ 52 + roundEven (q * 2 ^ (52 - roundExp q))

theorem floor_le_roundEven (x : ℚ) : ⌊x⌋₊ ≤ roundEven x ∧ roundEven x ≤ ⌊x⌋₊ + 1 := by
  rw [roundEven]
  split <;> omega

theorem roundEven_natCast (n : ℕ) : roundEven n = n := by simp [roundEven]

theorem roundEven_mono {x y : ℚ} (h : x ≤ y) : roundEven x ≤ roundEven y := by
  have hfloor : ⌊x⌋₊ ≤ ⌊y⌋₊ := Nat.floor_mono h
  rcases hfloor.eq_or_lt with heq | hlt
  · rw [roundEven, roundEven, heq]
    split
    · split <;> omega
    · rename_i hx
      rw [if_neg]
      intro hy
      apply hx
      rcases hy with hy | ⟨hy, heven⟩
      · exact .inl (by linarith)
      · rcases h.eq_or_lt with hxy | hxy
        · exact .inr ⟨by rw [hxy, hy], heven⟩
        · exact .inl (by linarith)
  · have hx := (floor_le_roundEven x).2
    have hy := (floor_le_roundEven y).1
    omega

theorem roundEven_le_of_le {x : ℚ} {n : ℕ} (h : x ≤ n) : roundEven x ≤ n :=
  (roundEven_mono h).trans_eq (roundEven_natCast n)

theorem le_roundEven_of_le {x : ℚ} {n : ℕ} (h : (n : ℚ) ≤ x) : n ≤ roundEven x :=
  (roundEven_natCast n).symm.trans_le (roundEven_mono h)

theorem roundEven_lt_of_lt {x : ℚ} {n : ℕ} (hn : 1 ≤ n) (h : x < n - 1 / 2) : roundEven x < n := by
  rcases lt_or_ge x 0 with hneg | hnonneg
  · have := roundEven_le_of_le (x := x) (n := 0) (by simpa using hneg.le)
    omega
  have hfloor : ⌊x⌋₊ ≤ n - 1 := by
    have : ⌊x⌋₊ < n := (Nat.floor_lt hnonneg).mpr (by linarith)
    omega
  rw [roundEven]
  split
  · omega
  · rename_i hfar
    by_contra hge
    have heq : ⌊x⌋₊ = n - 1 := by omega
    apply hfar
    left
    rw [heq, Nat.cast_sub hn]
    push_cast
    linarith

@[simp] theorem roundMag_zero : roundMag 0 = 0 := if_pos rfl

/-- A magnitude is its own rounding. -/
theorem roundMag_magValue (m : ℕ) : roundMag (magValue m) = m := by
  rcases Nat.eq_zero_or_pos m with rfl | hm
  · simp
  have hpos : 0 < magValue m := by
    rw [← magValue_zero]
    exact magValue_strictMono hm
  have hexp : roundExp (magValue m) = (exponent m : ℤ) - 1023 := by
    have hlog : Int.log 2 (magValue m) < (exponent m : ℤ) - 1022 := by
      rw [← Int.lt_zpow_iff_log_lt (by decide) hpos, magValue]
      have hs : (significand m : ℚ) < 2 ^ (53 : ℤ) := by
        have := significand_lt m
        exact_mod_cast this
      have hsplit : (exponent m : ℤ) - 1022 = 53 + ((exponent m : ℤ) - 1075) := by ring
      rw [hsplit, Nat.cast_ofNat, zpow_add₀ two_ne_zero]
      exact mul_lt_mul_of_pos_right hs (two_zpow_pos _)
    rw [roundExp]
    rcases normal_or_subnormal m with hnormal | hleast
    · have hge : (exponent m : ℤ) - 1023 ≤ Int.log 2 (magValue m) := by
        rw [← Int.zpow_le_iff_le_log (by decide) hpos, magValue]
        have hs : (2 : ℚ) ^ (52 : ℤ) ≤ significand m := by exact_mod_cast hnormal
        have hsplit : (exponent m : ℤ) - 1023 = 52 + ((exponent m : ℤ) - 1075) := by ring
        rw [hsplit, Nat.cast_ofNat, zpow_add₀ two_ne_zero]
        exact mul_le_mul_of_nonneg_right hs (two_zpow_pos _).le
      have hone := one_le_exponent m
      omega
    · omega
  have hunit : magValue m * 2 ^ (52 - roundExp (magValue m)) = significand m := by
    rw [hexp, magValue, mul_assoc, ← zpow_add₀ two_ne_zero]
    have hzero : (exponent m : ℤ) - 1075 + (52 - ((exponent m : ℤ) - 1023)) = 0 := by ring
    rw [hzero, zpow_zero, mul_one]
  have hone := one_le_exponent m
  have hnat : ((exponent m : ℤ) - 1023 + 1022).toNat = exponent m - 1 := by omega
  rw [roundMag, if_neg hpos.ne', hunit, roundEven_natCast, hexp, hnat]
  exact eq_of_significand m

theorem roundMag_mono {x y : ℚ} (hx : 0 ≤ x) (h : x ≤ y) : roundMag x ≤ roundMag y := by
  rcases hx.eq_or_lt with rfl | hx
  · simp
  have hy : 0 < y := hx.trans_le h
  have hexp : roundExp x ≤ roundExp y := max_le_max_right _ (Int.log_mono_right hx h)
  rw [roundMag, roundMag, if_neg hx.ne', if_neg hy.ne']
  rcases hexp.eq_or_lt with heq | hlt
  · rw [heq]
    have hround := roundEven_mono (mul_le_mul_of_nonneg_right h (two_zpow_pos (52 - roundExp y)).le)
    omega
  · -- The significand of `x` carries at most into the next exponent, and that of `y` is normal.
    have hlow : -1022 ≤ roundExp x := le_max_right _ _
    have hx53 : roundEven (x * 2 ^ (52 - roundExp x)) ≤ 2 ^ 53 := by
      apply roundEven_le_of_le
      have hlog : x < 2 ^ (roundExp x + 1) := by
        have hself := Int.lt_zpow_succ_log_self (R := ℚ) (b := 2) (by decide) x
        refine hself.trans_le ?_
        rw [Nat.cast_ofNat]
        exact zpow_le_zpow_right₀ one_le_two (by rw [roundExp]; omega)
      calc x * 2 ^ (52 - roundExp x)
          ≤ 2 ^ (roundExp x + 1) * 2 ^ (52 - roundExp x) :=
            mul_le_mul_of_nonneg_right hlog.le (two_zpow_pos _).le
        _ = ((2 ^ 53 : ℕ) : ℚ) := by
            rw [← zpow_add₀ two_ne_zero]
            have hsum : roundExp x + 1 + (52 - roundExp x) = 53 := by ring
            rw [hsum]
            norm_num
    have hy52 : 2 ^ 52 ≤ roundEven (y * 2 ^ (52 - roundExp y)) := by
      apply le_roundEven_of_le
      have hlog : roundExp y = Int.log 2 y := by
        simp only [roundExp] at hlt ⊢
        omega
      have hself := Int.zpow_log_le_self (R := ℚ) (b := 2) (by decide) hy
      rw [Nat.cast_ofNat, ← hlog] at hself
      calc ((2 ^ 52 : ℕ) : ℚ) = 2 ^ roundExp y * 2 ^ (52 - roundExp y) := by
            rw [← zpow_add₀ two_ne_zero]
            have hsum : roundExp y + (52 - roundExp y) = 52 := by ring
            rw [hsum]
            norm_num
        _ ≤ y * 2 ^ (52 - roundExp y) := mul_le_mul_of_nonneg_right hself (two_zpow_pos _).le
    have hnat : (roundExp x + 1022).toNat + 1 ≤ (roundExp y + 1022).toNat := by omega
    generalize roundEven (x * 2 ^ (52 - roundExp x)) = a at hx53 ⊢
    generalize roundEven (y * 2 ^ (52 - roundExp y)) = b at hy52 ⊢
    omega

/-! ## Operations -/

/-- A magnitude that is too large is infinite. -/
def ofMag (neg : Bool) (m : ℕ) : Double := num neg ⟨min m infMag, by omega⟩

/-- The float nearest to `q`, up to the sign. -/
def round (neg : Bool) (q : ℚ) : Double := ofMag neg (roundMag |q|)

def ofRat (q : ℚ) : Double := round (decide (q < 0)) q

/-- The exact value of a finite float. -/
def toRat : Double → ℚ
  | nan => 0
  | num neg m => if neg then -magValue m else magValue m

def IsFinite : Double → Prop
  | nan => False
  | num _ m => (m : ℕ) < infMag

instance : DecidablePred IsFinite
  | nan => .isFalse id
  | num _ m => inferInstanceAs (Decidable ((m : ℕ) < infMag))

def signBit : Double → Bool
  | nan => false
  | num neg _ => neg

def neg : Double → Double
  | nan => nan
  | num s m => num (!s) m

def abs : Double → Double
  | nan => nan
  | num _ m => num false m

def add : Double → Double → Double
  | num s m, num t n =>
      if (m : ℕ) = infMag then if (n : ℕ) = infMag ∧ s ≠ t then nan else num s m
      else if (n : ℕ) = infMag then num t n
      else
        let q := toRat (num s m) + toRat (num t n)
        if q = 0 then ofMag (s && t) 0 else ofRat q
  | _, _ => nan

def mul : Double → Double → Double
  | num s m, num t n =>
      if (m : ℕ) = infMag ∨ (n : ℕ) = infMag then
        if (m : ℕ) = 0 ∨ (n : ℕ) = 0 then nan else ofMag (s ^^ t) infMag
      else round (s ^^ t) (magValue m * magValue n)
  | _, _ => nan

def div : Double → Double → Double
  | num s m, num t n =>
      if (m : ℕ) = infMag then if (n : ℕ) = infMag then nan else ofMag (s ^^ t) infMag
      else if (n : ℕ) = infMag then ofMag (s ^^ t) 0
      else if (n : ℕ) = 0 then if (m : ℕ) = 0 then nan else ofMag (s ^^ t) infMag
      else round (s ^^ t) (magValue m / magValue n)
  | _, _ => nan

/-- The place in the order of the floats; the two zeros share one. -/
def rank : Double → ℤ
  | nan => 0
  | num s m => if s then -(m : ℤ) else m

/-- A comparison; it is false for NaN. -/
def compare (r : ℤ → ℤ → Bool) : Double → Double → Bool
  | nan, _ => false
  | _, nan => false
  | x, y => r (rank x) (rank y)

/-- The bit pattern; there is one for all NaN. -/
def bits : Double → ℕ
  | nan => infMag + 2 ^ 51
  | num neg m => (if neg then 2 ^ 63 else 0) + m

/-- The nearest integer, away from zero of two. -/
def roundAway : Double → Double
  | nan => nan
  | num s m => if (m : ℕ) = infMag then num s m else round s ⌊magValue m + 1 / 2⌋₊

/-- `as u64`: toward zero and saturating. -/
def toU64 : Double → ℕ
  | nan => 0
  | num neg m =>
      if neg then 0
      else if (m : ℕ) = infMag then 2 ^ 64 - 1
      else min ⌊magValue m⌋₊ (2 ^ 64 - 1)

instance : FloatOps Double where
  ofRat := ofRat
  add := add
  sub x y := add x (neg y)
  mul := mul
  div := div
  abs := abs
  lt := compare fun x y => x < y
  le := compare fun x y => x ≤ y
  eq := compare fun x y => x = y
  maxValue := ofMag false (infMag - 1)
  minValue := ofMag true (infMag - 1)
  epsilon := ofMag false (971 * 2 ^ 52)
  toU64 := toU64

instance : FloatBits Double where
  bitsLt x y := bits x < bits y

/-! ## The order of finite floats -/

theorem bits_num (s : Bool) (m : Fin (infMag + 1)) :
    (num s m).bits = (if s then 2 ^ 63 else 0) + (m : ℕ) := rfl

/-- The pattern and the place of a finite float, by its sign. -/
theorem bits_rank {x : Double} (h : x.IsFinite) :
    ∃ m : ℕ, m < 2 ^ 63 ∧ (x.signBit = false ∧ x.bits = m ∧ x.rank = m ∨
      x.signBit = true ∧ x.bits = 2 ^ 63 + m ∧ x.rank = -m) := by
  cases x with
  | nan => cases h
  | num s m =>
      have hlt : (m : ℕ) < infMag := h
      refine ⟨m, hlt.trans infMag_lt, ?_⟩
      cases s with
      | false =>
          refine .inl ⟨rfl, ?_, ?_⟩
          · rw [bits_num, if_neg Bool.false_ne_true, Nat.zero_add]
          · rw [rank, if_neg Bool.false_ne_true]
      | true =>
          refine .inr ⟨rfl, ?_, ?_⟩
          · rw [bits_num, if_pos rfl]
          · rw [rank, if_pos rfl]

theorem le_iff_rank {x y : Double} (hx : x.IsFinite) (hy : y.IsFinite) :
    FloatOps.le x y = true ↔ x.rank ≤ y.rank := by
  cases x with
  | nan => cases hx
  | num s m =>
      cases y with
      | nan => cases hy
      | num t n => exact decide_eq_true_iff

theorem eq_iff_rank {x y : Double} (hx : x.IsFinite) (hy : y.IsFinite) :
    FloatOps.eq x y = true ↔ x.rank = y.rank := by
  cases x with
  | nan => cases hx
  | num s m =>
      cases y with
      | nan => cases hy
      | num t n => exact decide_eq_true_iff

/-! ## Differences -/

theorem toRat_neg (x : Double) : x.neg.toRat = -x.toRat := by
  cases x with
  | nan => rfl
  | num s m => cases s <;> simp [neg, toRat]

protected theorem neg_neg (x : Double) : x.neg.neg = x := by
  cases x with
  | nan => rfl
  | num s m => simp [neg]

protected theorem add_comm (x y : Double) : add x y = add y x := by
  cases x with
  | nan => cases y <;> rfl
  | num s m =>
      cases y with
      | nan => rfl
      | num t n =>
          simp only [add, add_comm (toRat (num s m)), Bool.and_comm s]
          by_cases hm : (m : ℕ) = infMag
          · by_cases hn : (n : ℕ) = infMag
            · have h : m = n := Fin.ext (hm.trans hn.symm)
              subst h
              cases s <;> cases t <;> simp [hm]
            · simp [hm, hn]
          · simp [hm]

theorem abs_ofRat (q : ℚ) : (ofRat q).abs = (ofRat (-q)).abs := by
  simp [ofRat, round, ofMag, abs, abs_neg]

/-- The size of a sum does not change when both signs do. -/
theorem abs_neg_add_neg (x y : Double) : (add x.neg y.neg).abs = (add x y).abs := by
  cases x with
  | nan => cases y <;> rfl
  | num s m =>
      cases y with
      | nan => rfl
      | num t n =>
          by_cases hm : (m : ℕ) = infMag
          · by_cases hn : (n : ℕ) = infMag
            · cases s <;> cases t <;> simp [add, neg, hm, hn, abs]
            · simp [add, neg, hm, hn, abs]
          · by_cases hn : (n : ℕ) = infMag
            · simp [add, neg, hm, hn, abs]
            · have hq : toRat (num (!s) m) + toRat (num (!t) n) =
                  -(toRat (num s m) + toRat (num t n)) := by
                have hx := toRat_neg (num s m)
                have hy := toRat_neg (num t n)
                simp only [neg] at hx hy
                rw [hx, hy, neg_add]
              simp only [add, neg, hm, hn, if_false, hq, neg_eq_zero]
              split
              · rfl
              · exact (abs_ofRat _).symm

theorem abs_sub_comm (x y : Double) :
    FloatOps.abs (FloatOps.sub x y) = FloatOps.abs (FloatOps.sub y x) := by
  change (add x y.neg).abs = (add y x.neg).abs
  rw [← abs_neg_add_neg, y.neg_neg, Double.add_comm]

theorem maxNum_abs_comm (x y : Double) :
    FloatOps.maxNum (FloatOps.abs x) (FloatOps.abs y) =
      FloatOps.maxNum (FloatOps.abs y) (FloatOps.abs x) := by
  cases x with
  | nan => cases y <;> simp [FloatOps.maxNum, FloatOps.eq, FloatOps.abs, abs, compare]
  | num s m =>
      cases y with
      | nan => simp [FloatOps.maxNum, FloatOps.eq, FloatOps.abs, abs, compare]
      | num t n =>
          simp only [FloatOps.maxNum, FloatOps.eq, FloatOps.lt, FloatOps.abs, abs, compare, rank,
            decide_true, Bool.not_true, Bool.false_eq_true, if_false, decide_eq_true_eq,
            Nat.cast_lt]
          rcases lt_trichotomy (m : ℕ) n with h | h | h
          · rw [if_pos h, if_neg h.asymm]
          · rw [Fin.ext h]
          · rw [if_pos h, if_neg h.asymm]

/-- A float minus itself is zero or not a number. -/
theorem abs_sub_self (x : Double) :
    FloatOps.abs (FloatOps.sub x x) = nan ∨ FloatOps.abs (FloatOps.sub x x) = FloatOps.zero := by
  change (add x x.neg).abs = nan ∨ (add x x.neg).abs = ofRat 0
  cases x with
  | nan => exact .inl rfl
  | num s m =>
      by_cases hm : (m : ℕ) = infMag
      · refine .inl ?_
        cases s <;> simp [add, neg, hm, abs]
      · refine .inr ?_
        have h := toRat_neg (num s m)
        simp only [neg] at h
        simp [add, neg, hm, h, ofRat, round, ofMag, abs]

/-- Zero divided by a float is zero or not a number, and its size is too. -/
theorem div_zero_abs (x : Double) :
    FloatOps.div FloatOps.zero (FloatOps.abs x) = nan ∨
      FloatOps.div FloatOps.zero (FloatOps.abs x) = FloatOps.zero := by
  change div (ofRat 0) x.abs = nan ∨ div (ofRat 0) x.abs = ofRat 0
  have hzero : ofRat 0 = num false 0 := by simp [ofRat, round, ofMag]
  rw [hzero]
  cases x with
  | nan => exact .inl rfl
  | num s m =>
      have hinf : (0 : ℕ) ≠ infMag := by norm_num [infMag]
      by_cases hm : (m : ℕ) = infMag
      · exact .inr (by simp [div, abs, hm, hinf, ofMag])
      · by_cases hz : (m : ℕ) = 0
        · exact .inl (by simp [div, abs, hz, hinf])
        · exact .inr (by simp [div, abs, hm, hz, hinf, round, ofMag])

theorem lt_nan (x : Double) : FloatOps.lt x nan = false := by cases x <;> rfl

/-! ## Bit patterns -/

/-- The sign is the highest bit. -/
def toBits : Double → UInt64
  | nan => 0x7FF8000000000000
  | num neg mag => UInt64.ofNat ((if neg then 2 ^ 63 else 0) + mag)

/-- Every pattern above those of the infinities is read as the one NaN. -/
def ofBits (bits : UInt64) : Double :=
  let mag := bits.toNat % 2 ^ 63
  if h : mag < infMag + 1 then num (2 ^ 63 ≤ bits.toNat) ⟨mag, h⟩ else nan

theorem ofBits_toBits (x : Double) : ofBits x.toBits = x := by
  cases x with
  | nan => decide +kernel
  | num neg mag =>
      have hmag : (mag : ℕ) < 2 ^ 63 := lt_of_lt_of_le mag.isLt infMag_lt
      have hbits : (toBits (num neg mag)).toNat = (if neg then 2 ^ 63 else 0) + mag := by
        rw [toBits, UInt64.toNat_ofNat']
        apply Nat.mod_eq_of_lt
        split <;> omega
      have hmod : (toBits (num neg mag)).toNat % 2 ^ 63 = mag := by
        rw [hbits]
        split
        · rw [Nat.add_mod_left, Nat.mod_eq_of_lt hmag]
        · rw [Nat.zero_add, Nat.mod_eq_of_lt hmag]
      have hsign : decide (2 ^ 63 ≤ (toBits (num neg mag)).toNat) = neg := by
        rw [hbits]
        cases neg with
        | true => simp
        | false => simpa using hmag
      simp only [ofBits, hmod, hsign, mag.isLt, dif_pos]

end Double
