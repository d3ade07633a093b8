import K6Rs.Library.Double
import K6Rs.Library.FloatLit

/-! The decimal text of a float: the fewest digits that are read as the float, of two such numbers
the nearer one, and no exponent. -/

/-- The number `mantissa * 10 ^ exp`. -/
structure Decimal where
  mantissa : ℕ
  exp : ℤ

namespace Decimal

def value (d : Decimal) : ℚ := d.mantissa * 10 ^ d.exp

/-- The number of `k + 1` digits at or next below `q`. -/
def below (q : ℚ) (k : ℕ) : Decimal :=
  let exp := Int.log 10 q - k
  ⟨⌊q / 10 ^ exp⌋₊, exp⟩

/-- The number of `k + 1` digits next above `q`. -/
def above (q : ℚ) (k : ℕ) : Decimal :=
  let d := below q k
  if d.mantissa + 1 = 10 ^ (k + 1) then ⟨1, d.exp + k + 1⟩ else ⟨d.mantissa + 1, d.exp⟩

/-- The nearer of the two comes first. -/
def candidates (q : ℚ) (k : ℕ) : List Decimal :=
  let low := below q k
  let high := above q k
  if q - low.value < high.value - q then [low, high] else [high, low]

/-- The text without an exponent. -/
def text (d : Decimal) : Str :=
  let digits := Nat.toDigits 10 d.mantissa
  let places := (-d.exp).toNat
  if 0 ≤ d.exp then digits ++ List.replicate d.exp.toNat '0'
  else if digits.length ≤ places then
    '0' :: '.' :: (List.replicate (places - digits.length) '0' ++ digits)
  else digits.take (digits.length - places) ++ '.' :: digits.drop (digits.length - places)

/-- A text is read as the number. -/
theorem parseNumber_text (neg : Bool) (d : Decimal) :
    ∃ mantissa exp, FloatLit.parseNumber neg d.text = some (.dec neg mantissa exp) ∧
      (mantissa : ℚ) * 10 ^ exp = d.value := by
  have hdigits : ∀ c ∈ Nat.toDigits 10 d.mantissa, FloatLit.isDigit c :=
    fun c hc => FloatLit.isDigit_toDigits hc
  have hzeros (k : ℕ) : ∀ c ∈ List.replicate k '0', FloatLit.isDigit c := by
    intro c hc
    rw [List.eq_of_mem_replicate hc]
    decide
  have hplaces (h : ¬0 ≤ d.exp) : d.exp = -((-d.exp).toNat : ℤ) := by omega
  unfold text
  dsimp only
  split
  · rename_i hexp
    refine ⟨_, _, FloatLit.parseNumber_whole neg ?_ ?_, ?_⟩
    · exact List.append_ne_nil_of_left_ne_nil Nat.toDigits_ne_nil _
    · exact List.forall_mem_append.mpr ⟨hdigits, hzeros _⟩
    · have hpow : (10 : ℚ) ^ d.exp = 10 ^ d.exp.toNat := by
        rw [← zpow_natCast, Int.toNat_of_nonneg hexp]
      rw [FloatLit.digits_append_replicate, FloatLit.digits_toDigits, value, hpow]
      push_cast
      ring
  split
  · rename_i hexp hlong
    refine ⟨_, _, @FloatLit.parseNumber_point ['0'] _ neg (List.cons_ne_nil _
      _) (List.all_iff_forall_prop.mp (by decide))
      (List.forall_mem_append.mpr ⟨hzeros _, hdigits⟩), ?_⟩
    have hall : FloatLit.digits (['0'] ++
        (List.replicate ((-d.exp).toNat - (Nat.toDigits 10 d.mantissa).length) '0' ++
        Nat.toDigits 10 d.mantissa)) = d.mantissa := by
      have hzero : FloatLit.digits (List.replicate 1 '0' ++ (List.replicate ((-d.exp).toNat -
          (Nat.toDigits 10 d.mantissa).length) '0' ++ Nat.toDigits 10 d.mantissa)) =
            d.mantissa := by
        rw [FloatLit.digits_replicate_append, FloatLit.digits_replicate_append,
          FloatLit.digits_toDigits]
      exact hzero
    have hlength : (List.replicate ((-d.exp).toNat - (Nat.toDigits 10 d.mantissa).length) '0' ++
        Nat.toDigits 10 d.mantissa).length = (-d.exp).toNat := by
      rw [List.length_append, List.length_replicate]
      omega
    rw [hall, hlength, ← hplaces hexp, value]
  · rename_i hexp hshort
    refine ⟨_, _, FloatLit.parseNumber_point neg ?_ ?_ ?_, ?_⟩
    · rw [List.take_append_drop]
      exact Nat.toDigits_ne_nil
    · exact fun c hc => hdigits c (List.mem_of_mem_take hc)
    · exact fun c hc => hdigits c (List.mem_of_mem_drop hc)
    · have hlength : ((Nat.toDigits 10 d.mantissa).drop
          ((Nat.toDigits 10 d.mantissa).length - (-d.exp).toNat)).length =
          (-d.exp).toNat := by
        rw [List.length_drop]
        omega
      rw [List.take_append_drop, FloatLit.digits_toDigits, hlength, ← hplaces hexp, value]

/-- The digits, and a point among them. -/
theorem mem_text {d : Decimal} {c : Char} (h : c ∈ d.text) :
    FloatLit.isDigit c = true ∨ c = '.' := by
  have hdigits : ∀ c ∈ Nat.toDigits 10 d.mantissa, FloatLit.isDigit c :=
    fun c hc => FloatLit.isDigit_toDigits hc
  unfold text at h
  dsimp only at h
  split at h
  · rcases List.mem_append.mp h with h | h
    · exact .inl (hdigits c h)
    · rw [List.eq_of_mem_replicate h]
      exact .inl (by decide)
  split at h
  · simp only [List.mem_cons, List.mem_append] at h
    rcases h with rfl | rfl | h | h
    · exact .inl (by decide)
    · exact .inr rfl
    · rw [List.eq_of_mem_replicate h]
      exact .inl (by decide)
    · exact .inl (hdigits c h)
  · rcases List.mem_append.mp h with h | h
    · exact .inl (hdigits c (List.mem_of_mem_take h))
    · rcases List.mem_cons.mp h with rfl | h
      · exact .inr rfl
      · exact .inl (hdigits c (List.mem_of_mem_drop h))

theorem text_ne_nil (d : Decimal) : d.text ≠ [] := by
  unfold text
  dsimp only
  split
  · exact List.append_ne_nil_of_left_ne_nil Nat.toDigits_ne_nil _
  split
  · exact List.cons_ne_nil _ _
  · exact List.append_ne_nil_of_right_ne_nil _ (List.cons_ne_nil _ _)

theorem value_below_of_natCast {q : ℚ} {k n : ℕ} (h : q / 10 ^ (Int.log 10 q - k) = n) :
    (below q k).value = q := by
  have hpos : (0 : ℚ) < 10 ^ (Int.log 10 q - k) := zpow_pos (by norm_num) _
  rw [value, below]
  dsimp only
  rw [h, Nat.floor_natCast, ← h, div_mul_cancel₀ _ hpos.ne']

end Decimal

namespace Double

open Decimal

/-- The first candidate of `k + 1` digits that is read as the magnitude. -/
def closest (m k : ℕ) : Option Decimal :=
  (candidates (magValue m) k).find? fun d => roundMag d.value = m

/-- A magnitude is a number of digits itself. -/
theorem exists_closest (m : ℕ) : ∃ k, (closest m k).isSome = true := by
  let q := magValue m
  let k := (Int.log 10 q + 1074).toNat
  obtain ⟨n, hn⟩ : ∃ n : ℕ, q / 10 ^ (Int.log 10 q - k) = n := by
    obtain ⟨j, hj, hlarge⟩ : ∃ j : ℕ, Int.log 10 q - k = -(j : ℤ) ∧ 1074 ≤ j :=
      ⟨(k - Int.log 10 q).toNat, by omega, by omega⟩
    have hexp := one_le_exponent m
    refine ⟨significand m * 2 ^ (exponent m + j - 1075) * 5 ^ j, ?_⟩
    have htwo : (2 : ℚ) ^ ((exponent m : ℤ) - 1075) * 2 ^ j = 2 ^ (exponent m + j - 1075) := by
      rw [← zpow_natCast, ← zpow_natCast, ← zpow_add₀ two_ne_zero]
      congr 1
      omega
    have hten : (10 : ℚ) ^ j = 2 ^ j * 5 ^ j := by
      rw [← mul_pow]
      norm_num
    rw [hj, zpow_neg, zpow_natCast, div_inv_eq_mul, hten]
    change (significand m * 2 ^ ((exponent m : ℤ) - 1075) : ℚ) * (2 ^ j * 5 ^ j) = _
    push_cast
    rw [← htwo]
    ring
  refine ⟨k, List.find?_isSome.mpr ⟨below q k, ?_, ?_⟩⟩
  · rw [candidates]
    split <;> simp [q]
  · rw [value_below_of_natCast hn]
    exact decide_eq_true (roundMag_magValue m)

/-- The number that is read as the magnitude with the fewest digits. -/
def shortest (m : ℕ) : Decimal :=
  (closest m (Nat.find (exists_closest m))).get (Nat.find_spec (exists_closest m))

theorem roundMag_shortest (m : ℕ) : roundMag (shortest m).value = m := by
  have hfind : closest m (Nat.find (exists_closest m)) = some (shortest m) :=
    (Option.some_get _).symm
  rw [closest] at hfind
  have hread := List.find?_some hfind
  simpa using hread

/-- `Display` without a precision. -/
def display : Double → Str
  | nan => "NaN".toList
  | num neg m =>
      (if neg then ['-'] else []) ++ if (m : ℕ) = infMag then "inf".toList else (shortest m).text

/-- `Display` with a number of places after the point. -/
def fixed (places : ℕ) : Double → Str
  | nan => "NaN".toList
  | num neg m =>
      (if neg then ['-'] else []) ++
        if (m : ℕ) = infMag then "inf".toList
        else Decimal.text ⟨roundEven (magValue m * 10 ^ places), -places⟩

/-- The float of a number in digits. -/
def readNumber (s : Str) : Option Double :=
  let (neg, body) := FloatLit.sign s
  match FloatLit.parseNumber neg body with
  | some (.dec neg mantissa exp) => some (round neg (mantissa * 10 ^ exp))
  | _ => none

theorem readNumber_of_parse {s body : Str} {neg : Bool} {mantissa : ℕ} {exp : ℤ}
    (hsign : FloatLit.sign s = (neg, body))
    (hparse : FloatLit.parseNumber neg body = some (.dec neg mantissa exp)) :
    readNumber s = some (round neg (mantissa * 10 ^ exp)) := by
  rw [readNumber, hsign]
  simp only [hparse]

theorem sign_signed {neg : Bool} {t : Str} (hne : t ≠ [])
    (ht : ∀ c ∈ t, FloatLit.isDigit c = true ∨ c = '.') :
    FloatLit.sign ((if neg then ['-'] else []) ++ t) = (neg, t) := by
  cases neg with
  | true => exact FloatLit.sign_minus t
  | false =>
      obtain ⟨c, s, rfl⟩ := List.exists_cons_of_ne_nil hne
      have hc := ht c List.mem_cons_self
      refine FloatLit.sign_cons ?_ ?_
      · rintro rfl
        exact absurd hc (by decide)
      · rintro rfl
        exact absurd hc (by decide)

theorem round_shortest (neg : Bool) (m : Fin (infMag + 1)) :
    round neg (shortest m).value = num neg m := by
  have hnonneg : 0 ≤ (shortest m).value :=
    mul_nonneg (Nat.cast_nonneg _) (zpow_nonneg (by norm_num) _)
  have hle := Fin.is_le m
  rw [round, abs_of_nonneg hnonneg, roundMag_shortest, ofMag]
  congr 1
  exact Fin.ext (min_eq_left hle)

/-- What is displayed of a finite float is read as it. -/
theorem readNumber_display {x : Double} (h : x.IsFinite) : readNumber x.display = some x := by
  cases x with
  | nan => exact h.elim
  | num neg m =>
      have hfinite : (m : ℕ) < infMag := h
      obtain ⟨mantissa, exp, hparse, hvalue⟩ := parseNumber_text neg (shortest m)
      have hsign := @sign_signed neg _ (shortest m).text_ne_nil fun c hc => mem_text hc
      rw [display, if_neg hfinite.ne, readNumber_of_parse hsign hparse, hvalue, round_shortest]

theorem mem_display {x : Double} (h : x.IsFinite) {c : Char} (hc : c ∈ x.display) :
    FloatLit.isDigit c = true ∨ c = '.' ∨ c = '-' := by
  cases x with
  | nan => exact h.elim
  | num neg m =>
      have hfinite : (m : ℕ) < infMag := h
      rw [display, if_neg hfinite.ne, List.mem_append] at hc
      rcases hc with hc | hc
      · cases neg with
        | true => exact .inr (.inr (List.mem_singleton.mp hc))
        | false => cases hc
      · exact (mem_text hc).imp_right .inl

theorem mem_fixed {places : ℕ} {x : Double} {c : Char} (hc : c ∈ x.fixed places) :
    FloatLit.isDigit c = true ∨ c ∈ ['.', '-', 'N', 'a', 'i', 'n', 'f'] := by
  cases x with
  | nan =>
      have hall : ∀ c ∈ "NaN".toList, FloatLit.isDigit c = true ∨
          c ∈ ['.', '-', 'N', 'a', 'i', 'n', 'f'] :=
        List.all_iff_forall_prop.mp (by decide)
      exact hall c hc
  | num neg m =>
      rw [fixed, List.mem_append] at hc
      rcases hc with hc | hc
      · cases neg with
        | true =>
            rw [List.mem_singleton.mp hc]
            exact .inr (by decide)
        | false => cases hc
      · split at hc
        · have hall : ∀ c ∈ "inf".toList, FloatLit.isDigit c = true ∨
              c ∈ ['.', '-', 'N', 'a', 'i', 'n', 'f'] :=
            List.all_iff_forall_prop.mp (by decide)
          exact hall c hc
        · refine (mem_text hc).imp_right ?_
          rintro rfl
          decide

end Double
